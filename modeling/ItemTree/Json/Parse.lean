import ItemTree.Json.Reader

/-!
# Reading a JSON value as a tree

`Json.read depth` takes a value with at most `depth` nested brackets whose numbers lie within the range of doubles.
-/

namespace ItemTree.Json

/-- brackets that may be open at once while a value is read -/
def nestingLimit : Nat := 127

/-- a value with at most `depth` nested brackets -/
def read (depth : Nat) : Reader Json := fun cs =>
  match skipBlanks cs with
  | [] => .error .ended
  | 'n' :: cs => (Functor.mapConst null (word ['u', 'l', 'l']) : Reader Json) cs
  | 't' :: cs => (Functor.mapConst (bool true) (word ['r', 'u', 'e']) : Reader Json) cs
  | 'f' :: cs => (Functor.mapConst (bool false) (word ['a', 'l', 's', 'e']) : Reader Json) cs
  | '"' :: cs => (string <$> stringTail : Reader Json) cs
  | '[' :: cs =>
    match depth with
    | 0 => .error .malformed
    | depth + 1 => (array <$> elements (read depth) : Reader Json) cs
  | '\x7b' :: cs =>
    match depth with
    | 0 => .error .malformed
    | depth + 1 =>
      let member (ms : List (String × Json)) (key : String) : Except ReadError (Reader (List (String × Json))) :=
        .ok ((fun v => (key, v) :: ms) <$> read depth)
      ((fun ms => object ms.reverse) <$> members stringTail member [] : Reader Json) cs
  | c :: cs =>
    if startsNumeral c then ((fun n => number n.1) <$> boundedNumeral : Reader Json) (c :: cs) else .error .malformed

end ItemTree.Json
