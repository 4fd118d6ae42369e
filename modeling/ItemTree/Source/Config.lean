import ItemTree.Error
import ItemTree.Json.Record

/-!
# Options of source emission

The unit of indentation and whether the text ends in a line feed. `EmitConfig.parse` reads them from a JSON text in
which each may be left out.
-/

namespace ItemTree

structure EmitConfig where
  /-- one level of indentation -/
  indent : String := "    "
  trailingNewline : Bool := false
  deriving DecidableEq, Repr

namespace EmitConfig

def toJson (c : EmitConfig) : Json :=
  .object [("indent", .string c.indent), ("trailingNewline", .bool c.trailingNewline)]

/-- fields read so far -/
structure Draft where
  indent : Option String := none
  trailingNewline : Option Bool := none

def record : Json.Record Draft where
  name := "EmitConfig"
  start := {}
  fields :=
    [ ⟨"indent", false, fun d => d.indent.isSome, fun d => do return { d with indent := some (← Json.readString) }⟩,
      ⟨"trailingNewline", false, fun d => d.trailingNewline.isSome,
        fun d => do return { d with trailingNewline := some (← Json.readBool) }⟩ ]

/-- defaults for what a draft leaves open -/
def ofDraft (d : Draft) : EmitConfig :=
  let base : EmitConfig := {}
  ⟨d.indent.getD base.indent, d.trailingNewline.getD base.trailingNewline⟩

def read : Json.Reader EmitConfig := do return ofDraft (← record.read Json.nestingLimit)

def parse (text : String) : Except TreeError EmitConfig := (Json.readAll read text).mapError .invalidConfig

end EmitConfig

end ItemTree
