import ItemTree.Decimal.Double

/-!
# Written numbers

A `Numeral` is a number as it is written: sign, whole part without leading zeros, optional fraction, optional
exponent. Two numerals of one value may differ in text. `Numeral.chars` is that text.
-/

namespace ItemTree

abbrev Digit := Fin 10

/-- the character of a digit, `0` to `9` -/
def Digit.char (d : Digit) : Char := Char.ofNat (48 + d.val)

/-- a digit character read back -/
def Digit.ofChar? (c : Char) : Option Digit :=
  if h : 48 ≤ c.toNat ∧ c.toNat < 58 then some ⟨c.toNat - 48, by omega⟩ else none

/-- one digit or more -/
structure Digits where
  first : Digit
  rest : List Digit
  deriving DecidableEq, Repr

namespace Digits

def toList (ds : Digits) : List Digit := ds.first :: ds.rest

/-- value of a digit sequence, most significant first, after the digits of `n` -/
def valueFrom (n : Nat) (ds : List Digit) : Nat := ds.foldl (fun a d => 10 * a + d.val) n

def value (ds : Digits) : Nat := valueFrom 0 ds.toList

end Digits

/-- sign in front of the digits of an exponent -/
inductive ExponentSign where
  | none
  | plus
  | minus
  deriving DecidableEq, Repr

/-- mark `e` or `E`, a sign, digits -/
structure Exponent where
  capital : Bool := false
  sign : ExponentSign
  digits : Digits
  deriving DecidableEq, Repr

/-- a number in decimal notation -/
structure Numeral where
  negative : Bool
  whole : Nat
  fraction : Option Digits := none
  exponent : Option Exponent := none
  deriving DecidableEq, Repr

namespace ExponentSign

def chars : ExponentSign → List Char
  | none => []
  | plus => ['+']
  | minus => ['-']

end ExponentSign

namespace Exponent

def value (e : Exponent) : Int :=
  match e.sign with
  | .minus => -e.digits.value
  | _ => e.digits.value

def chars (e : Exponent) : List Char :=
  (if e.capital then 'E' else 'e') :: (e.sign.chars ++ e.digits.toList.map Digit.char)

end Exponent

namespace Numeral

/-- whole part of a number without sign -/
def wholeChars (n : Nat) : List Char := Nat.toDigits 10 n

def fractionChars : Option Digits → List Char
  | none => []
  | some ds => '.' :: ds.toList.map Digit.char

def exponentChars : Option Exponent → List Char
  | none => []
  | some e => e.chars

/-- the text of a numeral -/
def chars (n : Numeral) : List Char :=
  (if n.negative then ['-'] else []) ++ wholeChars n.whole ++ fractionChars n.fraction ++ exponentChars n.exponent

def text (n : Numeral) : String := String.ofList n.chars

/-- an integer without fraction and exponent -/
def ofInt (n : Int) : Numeral := { negative := n < 0, whole := n.natAbs }

def fractionDigits (n : Numeral) : List Digit :=
  match n.fraction with
  | none => []
  | some ds => ds.toList

/-- all digits as one integer -/
def significand (n : Numeral) : Nat := Digits.valueFrom n.whole n.fractionDigits

/-- the value is `± significand * 10 ^ scale` -/
def scale (n : Numeral) : Int :=
  (match n.exponent with
    | none => 0
    | some e => e.value) - n.fractionDigits.length

/-- nearest double, unless it is beyond the finite ones -/
def toDouble? (n : Numeral) : Option Double := Double.ofDecimal n.negative n.significand n.scale

end Numeral

end ItemTree
