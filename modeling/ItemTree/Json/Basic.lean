import ItemTree.Decimal.Style

/-!
# JSON values and their compact text

`Json` is a tree over numerals and strings, members in order and repeated keys allowed. `Json.chars` writes it
without any blanks.
-/

namespace ItemTree

inductive Json where
  | null
  | bool (b : Bool)
  | number (n : Numeral)
  | string (s : String)
  | array (elements : List Json)
  | object (members : List (String × Json))

namespace Json

/-- two lower-case hexadecimal digits of a number below 256 -/
def hexPair (n : Nat) : List Char := [Nat.digitChar (n / 16), Nat.digitChar (n % 16)]

/-- one character of a string literal: quotes, backslashes and control characters are escaped, all else stands as is -/
def escapeChar (c : Char) : List Char :=
  match c with
  | '"' => ['\\', '"']
  | '\\' => ['\\', '\\']
  | '\x08' => ['\\', 'b']
  | '\x0c' => ['\\', 'f']
  | '\n' => ['\\', 'n']
  | '\r' => ['\\', 'r']
  | '\t' => ['\\', 't']
  | c => if c.toNat < 0x20 then '\\' :: 'u' :: '0' :: '0' :: hexPair c.toNat else [c]

/-- a string literal after its opening quote -/
def tailChars (s : List Char) : List Char := s.flatMap escapeChar ++ ['"']

/-- a string literal -/
def literalChars (s : String) : List Char := '"' :: tailChars s.toList

def boolChars (b : Bool) : List Char := if b then ['t', 'r', 'u', 'e'] else ['f', 'a', 'l', 's', 'e']

mutual
/-- compact text of a value -/
def chars : Json → List Char
  | null => ['n', 'u', 'l', 'l']
  | bool b => boolChars b
  | number n => n.chars
  | string s => literalChars s
  | array [] => ['[', ']']
  | array (v :: vs) => '[' :: (chars v ++ elementChars vs)
  | object [] => ['\x7b', '\x7d']
  | object ((k, v) :: ms) => '\x7b' :: (literalChars k ++ ':' :: (chars v ++ memberChars ms))
/-- elements after the first one, and the closing bracket -/
def elementChars : List Json → List Char
  | [] => [']']
  | v :: vs => ',' :: (chars v ++ elementChars vs)
/-- members after the first one, and the closing brace -/
def memberChars : List (String × Json) → List Char
  | [] => ['\x7d']
  | (k, v) :: ms => ',' :: (literalChars k ++ ':' :: (chars v ++ memberChars ms))
end

def text (j : Json) : String := String.ofList j.chars

/-- a whole number -/
def integer (n : Int) : Json := number (Numeral.ofInt n)

/-- a double; values without digits have no number and become null -/
def double (d : Double) : Json := if d.isFinite then number (Style.interchange.numeral d) else null

end Json

end ItemTree
