import ItemTree.Text.Invisible

/-!
# Quoted text with readable escapes

A quoted text stands between double quotes; quotes, backslashes, line ends, tabs and NUL have short escapes, other
characters without a visible form are written by code point in braces.
-/

namespace ItemTree.Text

/-- lower-case hexadecimal digits without leading zeros -/
def hexChars (n : Nat) : List Char := Nat.toDigits 16 n

/-- one character inside the quotes -/
def escapeChar (c : Char) : List Char :=
  match c with
  | '"' => ['\\', '"']
  | '\\' => ['\\', '\\']
  | '\n' => ['\\', 'n']
  | '\r' => ['\\', 'r']
  | '\t' => ['\\', 't']
  | '\x00' => ['\\', '0']
  | c => if isInvisible c then "\\u\x7b".toList ++ hexChars c.toNat ++ "\x7d".toList else [c]

/-- a text between double quotes -/
def quoted (s : String) : String := String.ofList ('"' :: (s.toList.flatMap escapeChar ++ ['"']))

end ItemTree.Text
