import ItemTree.Decimal.Style
import ItemTree.Text.Quoted

/-!
# Why a JSON text is not read

A text ends too early, is malformed, or has a well-formed part of the wrong shape. Only the last comes with a
`Fault`, whose `message` names what was found and what was wanted.
-/

namespace ItemTree.Json

/-- the value met where another was wanted; of an array or object only the opening bracket has been seen -/
inductive Found where
  | null
  | boolean (b : Bool)
  | integer (n : Int)
  | float (d : Double)
  | string (s : String)
  | sequence
  | map
  deriving DecidableEq, Repr

/-- a well-formed part of the wrong shape -/
inductive Fault where
  | wrongType (found : Found) (wanted : String)
  | outOfRange (n : Int) (wanted : String)
  | missingField (name : String)
  | duplicateField (name : String)
  | tooShort (length : Nat) (wanted : String)
  | unknownVariant (name : String) (known : List String)
  | noVariant (type : String)
  deriving DecidableEq, Repr

inductive ReadError where
  /-- the text ended too early -/
  | ended
  /-- the text is not JSON, or is beyond a limit of the reader -/
  | malformed
  | refused (fault : Fault)
  deriving DecidableEq, Repr

/-- a name between backticks -/
def ticked (s : String) : String := "`" ++ s ++ "`"

namespace Found

def text : Found → String
  | null => "null"
  | boolean b => "boolean " ++ ticked (if b then "true" else "false")
  | integer n => "integer " ++ ticked (Numeral.ofInt n).text
  | float d => "floating point " ++ ticked (Style.interchange.text d)
  | string s => "string " ++ Text.quoted s
  | sequence => "sequence"
  | map => "map"

end Found

namespace Fault

/-- a choice of names: two are joined by `or`, more are listed -/
def choice : List String → String
  | [a, b] => ticked a ++ " or " ++ ticked b
  | names => "one of " ++ ", ".intercalate (names.map ticked)

def message : Fault → String
  | wrongType found wanted => "invalid type: " ++ found.text ++ ", expected " ++ wanted
  | outOfRange n wanted => "invalid value: " ++ (Found.integer n).text ++ ", expected " ++ wanted
  | missingField name => "missing field " ++ ticked name
  | duplicateField name => "duplicate field " ++ ticked name
  | tooShort length wanted => "invalid length " ++ (Numeral.ofInt length).text ++ ", expected " ++ wanted
  | unknownVariant name known => "unknown variant " ++ ticked name ++ ", expected " ++ choice known
  | noVariant type => "data did not match any variant of untagged enum " ++ type

end Fault

namespace ReadError

def message : ReadError → String
  | ended => "unexpected end of text"
  | malformed => "malformed text"
  | refused fault => fault.message

end ReadError

end ItemTree.Json
