import ItemTree.Json.Basic
import ItemTree.Json.Error

/-!
# Reading JSON text from left to right

A `Reader` takes the characters that are left and gives a result with the rest, or the first problem met. This
module has the tokens: blanks, literals, strings, numerals, and the steps from one element or member to the next.

Loops carry a fuel that the length of the text bounds; every turn takes at least one character.
-/

namespace ItemTree.Json

/-- a step over the characters that are left -/
abbrev Reader := StateT (List Char) (Except ReadError)

/-- space, line feed, tab or carriage return -/
def isBlank (c : Char) : Bool := c == ' ' || c == '\n' || c == '\t' || c == '\r'

def skipBlanks (cs : List Char) : List Char := cs.dropWhile isBlank

/-- fails for good -/
def fail {α : Type} (e : ReadError) : Reader α := fun _ => .error e

/-- passes over blanks -/
def blanks : Reader Unit := fun cs => .ok ((), skipBlanks cs)

/-- the remaining letters of a word -/
def word : List Char → Reader Unit
  | [], cs => .ok ((), cs)
  | _ :: _, [] => .error .ended
  | l :: ls, c :: cs => if l = c then word ls cs else .error .malformed

/-! ## strings -/

def hexValue? (c : Char) : Option Nat :=
  if '0' ≤ c ∧ c ≤ '9' then some (c.toNat - 48)
  else if 'a' ≤ c ∧ c ≤ 'f' then some (c.toNat - 87)
  else if 'A' ≤ c ∧ c ≤ 'F' then some (c.toNat - 55)
  else none

/-- size in bytes of what is left -/
def byteSize (cs : List Char) : Nat := cs.foldr (fun c size => c.utf8Size + size) 0

/-- four hexadecimal digits; fewer than four bytes are a text that ends too early, whatever they are -/
def hexUnit : Reader Nat := fun cs =>
  match cs with
  | a :: b :: c :: d :: rest =>
    match hexValue? a, hexValue? b, hexValue? c, hexValue? d with
    | some a, some b, some c, some d => .ok (((a * 16 + b) * 16 + c) * 16 + d, rest)
    | _, _, _, _ => .error .malformed
  | cs => if byteSize cs < 4 then .error .ended else .error .malformed

/-- the second half of a surrogate pair, with the character of both -/
def lowSurrogate (high : Nat) : Reader Char := do
  word ['\\', 'u']
  let low ← hexUnit
  if 0xDC00 ≤ low ∧ low ≤ 0xDFFF then
    return Char.ofNat (0x10000 + (high - 0xD800) * 0x400 + (low - 0xDC00))
  fail .malformed

/-- the character of a `\u` escape after the `u`; surrogates only in pairs -/
def unicodeEscape : Reader Char := do
  let unit ← hexUnit
  if 0xD800 ≤ unit ∧ unit ≤ 0xDBFF then lowSurrogate unit
  else if 0xDC00 ≤ unit ∧ unit ≤ 0xDFFF then fail .malformed
  else return Char.ofNat unit

/-- escapes of one letter -/
def shortEscape? : Char → Option Char
  | '"' => some '"'
  | '\\' => some '\\'
  | '/' => some '/'
  | 'b' => some '\x08'
  | 'f' => some '\x0c'
  | 'n' => some '\n'
  | 'r' => some '\r'
  | 't' => some '\t'
  | _ => none

/-- an escape after its backslash -/
def escape : Reader Char
  | [] => .error .ended
  | 'u' :: cs => unicodeEscape cs
  | c :: cs =>
    match shortEscape? c with
    | some x => .ok (x, cs)
    | none => .error .malformed

/-- characters of a string literal after its opening quote, and past the closing one -/
def literalTail : Nat → Reader (List Char)
  | 0, _ => .error .ended
  | _ + 1, [] => .error .ended
  | _ + 1, '"' :: cs => .ok ([], cs)
  | fuel + 1, '\\' :: cs => do
    let (x, cs) ← escape cs
    let (xs, cs) ← literalTail fuel cs
    return (x :: xs, cs)
  | fuel + 1, c :: cs =>
    if c.toNat < 0x20 then .error .malformed
    else do
      let (xs, cs) ← literalTail fuel cs
      return (c :: xs, cs)

/-- a string after its opening quote -/
def stringTail : Reader String := fun cs => do
  let (xs, cs) ← literalTail (cs.length + 1) cs
  return (String.ofList xs, cs)

/-! ## numerals -/

/-- digits at the front -/
def digitRun : List Char → List Digit × List Char
  | [] => ([], [])
  | c :: cs =>
    match Digit.ofChar? c with
    | none => ([], c :: cs)
    | some d =>
      let (ds, rest) := digitRun cs
      (d :: ds, rest)

/-- one digit or more; `atEnd` is the problem when the text ends instead -/
def digits1 (atEnd : ReadError) : Reader Digits := fun cs =>
  match digitRun cs with
  | (d :: ds, rest) => .ok (⟨d, ds⟩, rest)
  | ([], []) => .error atEnd
  | ([], _ :: _) => .error .malformed

/-- whole part: no zero in front of other digits -/
def wholePart (atEnd : ReadError) : Reader Nat := fun cs =>
  match digits1 atEnd cs with
  | .error e => .error e
  | .ok (ds, rest) => if ds.first.val = 0 ∧ ds.rest ≠ [] then .error .malformed else .ok (ds.value, rest)

def fractionPart (atEnd : ReadError) : Reader (Option Digits)
  | '.' :: cs => (some <$> digits1 atEnd : Reader _) cs
  | cs => .ok (none, cs)

def exponentSign : Reader ExponentSign
  | '+' :: cs => .ok (.plus, cs)
  | '-' :: cs => .ok (.minus, cs)
  | cs => .ok (.none, cs)

/-- sign and digits after the mark of an exponent -/
def exponentTail (atEnd : ReadError) (capital : Bool) : Reader (Option Exponent) := do
  let sign ← exponentSign
  let digits ← digits1 atEnd
  return some ⟨capital, sign, digits⟩

def exponentPart (atEnd : ReadError) : Reader (Option Exponent)
  | 'e' :: cs => exponentTail atEnd false cs
  | 'E' :: cs => exponentTail atEnd true cs
  | cs => .ok (none, cs)

/-- a numeral after its sign -/
def unsignedNumeral (atEnd : ReadError) (negative : Bool) : Reader Numeral := do
  let whole ← wholePart atEnd
  let fraction ← fractionPart atEnd
  let exponent ← exponentPart atEnd
  return ⟨negative, whole, fraction, exponent⟩

def numeral (atEnd : ReadError) : Reader Numeral
  | '-' :: cs => unsignedNumeral atEnd true cs
  | cs => unsignedNumeral atEnd false cs

/-- a digit or a minus sign -/
def startsNumeral (c : Char) : Bool := c == '-' || (Digit.ofChar? c).isSome

/-- a number as its reader understands it -/
inductive Number where
  | integer (n : Int)
  | double (d : Double)
  deriving DecidableEq, Repr

/-- integers from `-2 ^ 63` to `2 ^ 64 - 1` stay exact, except a negative zero; any other numeral is a double, if
there is one -/
def Number.ofNumeral? (n : Numeral) : Option Number :=
  let value : Int := if n.negative then -(n.whole : Int) else n.whole
  if n.fraction.isNone ∧ n.exponent.isNone ∧ -Int.pow 2 63 ≤ value ∧ value < Int.pow 2 64 ∧
      ¬(n.negative ∧ n.whole = 0) then
    some (.integer value)
  else n.toDouble?.map .double

/-- a numeral within the range of numbers -/
def boundedNumeral : Reader (Numeral × Number) := do
  let n ← numeral .ended
  match Number.ofNumeral? n with
  | some v => return (n, v)
  | none => fail .malformed

/-! ## arrays and objects -/

/-- passes to the next element of an array; false at the closing bracket, which is left -/
def nextElement (first : Bool) : Reader Bool := fun cs =>
  match skipBlanks cs with
  | [] => .error .ended
  | ']' :: cs => .ok (false, ']' :: cs)
  | c :: cs =>
    if first then .ok (true, c :: cs)
    else if c = ',' then
      match skipBlanks cs with
      | [] => .error .ended
      | ']' :: _ => .error .malformed
      | cs => .ok (true, cs)
    else .error .malformed

/-- the closing bracket of an array -/
def closeArray : Reader Unit := fun cs =>
  match skipBlanks cs with
  | [] => .error .ended
  | ']' :: cs => .ok ((), cs)
  | _ => .error .malformed

/-- passes to the next key of an object and past its opening quote; false at the closing brace, which is left -/
def nextKey (first : Bool) : Reader Bool := fun cs =>
  match skipBlanks cs with
  | [] => .error .ended
  | '\x7d' :: cs => .ok (false, '\x7d' :: cs)
  | c :: cs =>
    if first then
      if c = '"' then .ok (true, cs) else .error .malformed
    else if c = ',' then
      match skipBlanks cs with
      | [] => .error .ended
      | '"' :: cs => .ok (true, cs)
      | _ => .error .malformed
    else .error .malformed

/-- the closing brace of an object -/
def closeObject : Reader Unit := fun cs =>
  match skipBlanks cs with
  | [] => .error .ended
  | '\x7d' :: cs => .ok ((), cs)
  | _ => .error .malformed

/-- the colon between key and value -/
def colon : Reader Unit := fun cs =>
  match skipBlanks cs with
  | [] => .error .ended
  | ':' :: cs => .ok ((), cs)
  | _ => .error .malformed

/-- elements up to the closing bracket -/
def elementLoop {α : Type} (read : Reader α) : Nat → Bool → Reader (List α)
  | 0, _ => fail .ended
  | fuel + 1, first => do
    if ← nextElement first then
      let x ← read
      let xs ← elementLoop read fuel false
      return x :: xs
    else
      closeArray
      return []

/-- an array after its opening bracket -/
def elements {α : Type} (read : Reader α) : Reader (List α) := fun cs => elementLoop read (cs.length + 1) true cs

/-- members up to the closing brace, folded into a state. The key alone chooses the reader of the member's value,
and may already be refused. -/
def memberLoop {κ σ : Type} (key : Reader κ) (member : σ → κ → Except ReadError (Reader σ)) : Nat → Bool → σ → Reader σ
  | 0, _, _ => fail .ended
  | fuel + 1, first, s => do
    if ← nextKey first then
      let k ← key
      let value ← liftM (member s k)
      colon
      let s ← value
      memberLoop key member fuel false s
    else
      closeObject
      return s

/-- an object after its opening brace -/
def members {κ σ : Type} (key : Reader κ) (member : σ → κ → Except ReadError (Reader σ)) (start : σ) : Reader σ :=
  fun cs => memberLoop key member (cs.length + 1) true start cs

/-- a whole text: one value, then only blanks -/
def readAll {α : Type} (read : Reader α) (text : String) : Except ReadError α :=
  match read text.toList with
  | .error e => .error e
  | .ok (a, rest) => if skipBlanks rest = [] then .ok a else .error .malformed

end ItemTree.Json
