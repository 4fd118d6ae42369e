import ItemTree.Decimal.Numeral
import ItemTree.Decimal.Shortest

/-!
# Styles of writing a double

All styles write the shortest digits that read back. A `Style` fixes where positional notation ends, whether a whole
number keeps a fraction, and the sign of an exponent.
-/

namespace ItemTree

/-- how the digits of a double are laid out -/
structure Style where
  /-- powers of ten of the leading digit that are written without an exponent -/
  positional : Int → Bool
  /-- a positional whole number ends in `.0` -/
  keepPoint : Bool
  /-- sign of an exponent that is not negative -/
  plus : ExponentSign
  tie : Tie

namespace Style

/-- always positional, whole numbers without a point -/
def plain : Style := ⟨fun _ => true, false, .none, .away⟩

/-- positional from `0.0001` up to below `10 ^ 16`, always with a point there -/
def exact : Style := ⟨fun e => -4 ≤ e && e < 16, true, .none, .away⟩

/-- positional from `0.00001` up to below `10 ^ 16`, always with a point there; exponents are signed -/
def interchange : Style := ⟨fun e => -5 ≤ e && e < 16, true, .plus, .toEven⟩

end Style

/-- decimal digits of `n`, most significant first -/
def digitsOf (n : Nat) : List Digit := (Nat.toDigits 10 n).filterMap Digit.ofChar?

/-- the last `n` decimal digits of `value` -/
def lastDigits (n value : Nat) : List Digit :=
  let ds := digitsOf (value % Nat.pow 10 n)
  if n = 0 then [] else List.replicate (n - ds.length) 0 ++ ds

/-- digits as a fraction, absent when there are none -/
def fractionOf : List Digit → Option Digits
  | [] => none
  | d :: ds => some ⟨d, ds⟩

def pointZero : Digits := ⟨0, []⟩

namespace Style

/-- a decimal without exponent -/
def layoutPositional (s : Style) (negative : Bool) (d : Decimal) : Numeral :=
  let places := (-d.exponent).toNat
  let fraction := fractionOf (lastDigits places d.digits)
  { negative := negative
    whole := d.digits * Nat.pow 10 d.exponent.toNat / Nat.pow 10 places
    fraction := if fraction.isNone && s.keepPoint then some pointZero else fraction }

/-- a decimal with one digit before the point and an exponent -/
def layoutScientific (s : Style) (negative : Bool) (d : Decimal) : Numeral :=
  let ds := digitsOf d.digits
  let e := d.magnitude
  let power := digitsOf e.natAbs
  { negative := negative
    whole := (ds.headD 0).val
    fraction := fractionOf ds.tail
    exponent := some
      { sign := if e < 0 then .minus else s.plus
        digits := ⟨power.headD 0, power.tail⟩ } }

/-- a finite double as a written number -/
def numeral (s : Style) (d : Double) : Numeral :=
  if d.isZero then { negative := d.negative, whole := 0, fraction := if s.keepPoint then some pointZero else none }
  else
    let dec := d.shortest s.tie
    if s.positional dec.magnitude then s.layoutPositional d.negative dec else s.layoutScientific d.negative dec

/-- a double as text, with words for the values that have no digits -/
def text (s : Style) (d : Double) : String :=
  if d.isNaN then "NaN"
  else if d.isFinite then (s.numeral d).text
  else if d.negative then "-inf" else "inf"

end Style

end ItemTree
