import ItemTree.Decimal.Style
import ItemTree.Text.Quoted

/-!
# Literals and positions

* `Position`: line and column of an item;
* `Value`: the literal an item carries;
* `Value.text`: the literal as it appears in source and in exports;
* `Value.sameAs`: identity of literals, doubles by bit pattern, against numerical equality `Value.numEq`.
-/

namespace ItemTree

/-- where an item stands -/
structure Position where
  line : UInt32 := 0
  column : UInt32 := 0
  deriving DecidableEq, Repr

/-- decimal text of a natural number -/
def natText (n : Nat) : String := String.ofList (Nat.toDigits 10 n)

/-- decimal text of an integer -/
def intText (n : Int) : String := (Numeral.ofInt n).text

namespace Position

/-- text of the form `line:column` -/
def text (p : Position) : String := natText p.line.toNat ++ ":" ++ natText p.column.toNat

end Position

/-- a literal -/
inductive Value where
  | null
  | bool (b : Bool)
  | integer (n : Int64)
  | double (d : Double)
  | string (s : String)
  deriving DecidableEq, Repr

namespace Value

def isNull : Value → Bool
  | null => true
  | _ => false

def string? : Value → Option String
  | string s => some s
  | _ => none

def boolText (b : Bool) : String := if b then "true" else "false"

/-- the literal in source; an absent one is the empty text -/
def text : Value → String
  | null => ""
  | bool b => boolText b
  | integer n => intText n.toInt
  | double d => Style.plain.text d
  | string s => s

/-- the same variant with equal content, numbers compared as numbers -/
def numEq : Value → Value → Bool
  | null, null => true
  | bool a, bool b => a == b
  | integer a, integer b => a == b
  | double a, double b => a.numEq b
  | string a, string b => a == b
  | _, _ => false

/-- identity: a not-a-number is the same as itself, the two zeros differ -/
def sameAs (v w : Value) : Bool :=
  match v, w with
  | double a, double b => a.bits == b.bits
  | v, w => v.numEq w

end Value

end ItemTree
