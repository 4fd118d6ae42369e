import ItemTree.Json.Reader

/-!
# Passing over a JSON value

A value that nobody asks for is only checked for its form: any nesting, numbers of any size, and surrogate escapes
without a partner are fine.
-/

namespace ItemTree.Json

/-- an escape after its backslash -/
def skipEscape : Reader Unit
  | [] => .error .ended
  | 'u' :: cs => (discard hexUnit : Reader Unit) cs
  | c :: cs => if (shortEscape? c).isSome then .ok ((), cs) else .error .malformed

def skipLiteralTail : Nat → Reader Unit
  | 0, _ => .error .ended
  | _ + 1, [] => .error .ended
  | _ + 1, '"' :: cs => .ok ((), cs)
  | fuel + 1, '\\' :: cs => do
    let (_, cs) ← skipEscape cs
    skipLiteralTail fuel cs
  | fuel + 1, c :: cs => if c.toNat < 0x20 then .error .malformed else skipLiteralTail fuel cs

/-- a string after its opening quote -/
def skipString : Reader Unit := fun cs => skipLiteralTail (cs.length + 1) cs

/-- a value with at most `depth` nested brackets -/
def skipNested (depth : Nat) : Reader Unit := fun cs =>
  match skipBlanks cs with
  | [] => .error .ended
  | 'n' :: cs => word ['u', 'l', 'l'] cs
  | 't' :: cs => word ['r', 'u', 'e'] cs
  | 'f' :: cs => word ['a', 'l', 's', 'e'] cs
  | '"' :: cs => skipString cs
  | '[' :: cs =>
    match depth with
    | 0 => .error .malformed
    | depth + 1 => (discard (elements (skipNested depth)) : Reader Unit) cs
  | '\x7b' :: cs =>
    match depth with
    | 0 => .error .malformed
    | depth + 1 => members skipString (fun _ _ => .ok (skipNested depth)) () cs
  | c :: cs => if startsNumeral c then (discard (numeral .malformed) : Reader Unit) (c :: cs) else .error .malformed

/-- a value; a text has no more nested brackets than characters -/
def skipValue : Reader Unit := fun cs => skipNested cs.length cs

end ItemTree.Json
