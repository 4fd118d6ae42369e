import ItemTree.Json.Parse

/-!
# Reading a JSON value of a wanted type

Each reader takes one type and refuses the others by naming what it found. An array or object where a scalar is
wanted is refused at its opening bracket.
-/

namespace ItemTree.Json

def wrong {α : Type} (found : Found) (wanted : String) : Reader α := fail (.refused (.wrongType found wanted))

def Number.found : Number → Found
  | .integer n => .integer n
  | .double d => .float d

/-- refuses the value that starts here, which has to be well-formed as far as it is named -/
def refuse {α : Type} (wanted : String) : Reader α
  | [] => .error .ended
  | 'n' :: cs => (do word ['u', 'l', 'l']; wrong .null wanted : Reader α) cs
  | 't' :: cs => (do word ['r', 'u', 'e']; wrong (.boolean true) wanted : Reader α) cs
  | 'f' :: cs => (do word ['a', 'l', 's', 'e']; wrong (.boolean false) wanted : Reader α) cs
  | '"' :: cs => (do wrong (.string (← stringTail)) wanted : Reader α) cs
  | '[' :: cs => wrong .sequence wanted cs
  | '\x7b' :: cs => wrong .map wanted cs
  | c :: cs =>
    if startsNumeral c then (do wrong (← boundedNumeral).2.found wanted : Reader α) (c :: cs) else .error .malformed

def readString : Reader String := fun cs =>
  match skipBlanks cs with
  | '"' :: cs => stringTail cs
  | cs => refuse "a string" cs

def readBool : Reader Bool := fun cs =>
  match skipBlanks cs with
  | 't' :: cs => (Functor.mapConst true (word ['r', 'u', 'e']) : Reader Bool) cs
  | 'f' :: cs => (Functor.mapConst false (word ['a', 'l', 's', 'e']) : Reader Bool) cs
  | cs => refuse "a boolean" cs

def readUnit : Reader Unit := fun cs =>
  match skipBlanks cs with
  | 'n' :: cs => word ['u', 'l', 'l'] cs
  | cs => refuse "unit" cs

/-- an integer from `0` to `2 ^ 32 - 1` -/
def readWord : Reader UInt32 := fun cs =>
  match skipBlanks cs with
  | [] => .error .ended
  | c :: cs =>
    if startsNumeral c then
      (do
        match (← boundedNumeral).2 with
        | .integer n =>
          if 0 ≤ n ∧ n < Int.pow 2 32 then return UInt32.ofNat n.toNat
          fail (.refused (.outOfRange n "u32"))
        | .double d => wrong (.float d) "u32" : Reader UInt32) (c :: cs)
    else refuse "u32" (c :: cs)

/-! ## constants by name -/

/-- the constant of a name -/
def lookupVariant {α : Type} (known : List (String × α)) (name : String) : Except ReadError α :=
  match known.lookup name with
  | some a => .ok a
  | none => .error (.refused (.unknownVariant name (known.map (·.1))))

/-- the one key of an object that names a constant -/
def variantKey : Reader String := fun cs =>
  match skipBlanks cs with
  | [] => .error .ended
  | '"' :: cs => stringTail cs
  | _ => .error .malformed

/-- a constant: its name as a string, or an object with the name as its one key and null as the value -/
def readVariant {α : Type} (known : List (String × α)) : Reader α := fun cs =>
  match skipBlanks cs with
  | [] => .error .ended
  | '"' :: cs => (do liftM (lookupVariant known (← stringTail)) : Reader α) cs
  | '\x7b' :: cs =>
    (do
      let a ← liftM (lookupVariant known (← variantKey))
      colon
      readUnit
      closeObject
      return a : Reader α) cs
  | _ => .error .malformed

end ItemTree.Json
