import ItemTree.Json.Skip
import ItemTree.Json.Typed

/-!
# Reading a JSON value as a record

A `Record` is a list of named fields that fill a draft `σ`. Its text is an object, in which members of other names
are passed over and none of the fields stands twice, or an array with the fields in order.
-/

namespace ItemTree.Json

/-- one field of a draft `σ` -/
structure Field (σ : Type) where
  name : String
  required : Bool
  isSet : σ → Bool
  read : σ → Reader σ

/-- a record under construction in a draft `σ` -/
structure Record (σ : Type) where
  name : String
  start : σ
  fields : List (Field σ)

namespace Record

variable {σ : Type}

def wanted (r : Record σ) : String := "struct " ++ r.name

/-- what was wanted of an array, with its number of elements -/
def wantedLength (r : Record σ) : String :=
  r.wanted ++ " with " ++ (Numeral.ofInt r.fields.length).text ++ " elements"

/-- the fields from the `i`-th on, by place; those left out at the end stay unset, unless they are required -/
def positional (r : Record σ) : Nat → Bool → List (Field σ) → σ → Reader σ
  | _, _, [], s => do
    closeArray
    return s
  | i, first, f :: fs, s => do
    if ← nextElement first then
      let s ← f.read s
      r.positional (i + 1) false fs s
    else if f.required then fail (.refused (.tooShort i r.wantedLength))
    else r.positional (i + 1) first fs s

/-- what to do with the value of a member -/
def member (r : Record σ) (s : σ) (key : String) : Except ReadError (Reader σ) :=
  match r.fields.find? fun f => f.name == key with
  | none => .ok (do skipValue; return s)
  | some f => if f.isSet s then .error (.refused (.duplicateField f.name)) else .ok (f.read s)

/-- the first required field that is not set -/
def missing? (r : Record σ) (s : σ) : Option (Field σ) := r.fields.find? fun f => f.required && !f.isSet s

/-- the fields by name -/
def named (r : Record σ) : Reader σ := do
  let s ← members stringTail r.member r.start
  match r.missing? s with
  | some f => fail (.refused (.missingField f.name))
  | none => return s

/-- a filled draft, when `depth` more brackets may be opened -/
def read (r : Record σ) (depth : Nat) : Reader σ := fun cs =>
  match skipBlanks cs with
  | '[' :: cs => if depth = 0 then .error .malformed else r.positional 0 true r.fields r.start cs
  | '\x7b' :: cs => if depth = 0 then .error .malformed else r.named cs
  | cs => refuse r.wanted cs

end Record

end ItemTree.Json
