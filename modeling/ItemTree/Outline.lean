import ItemTree.Item.Basic
import ItemTree.Text.Quoted

/-!
# Outlines

An `Outline` shows the structure of a value: named records, named tuples, lists and plain words. It is written on
one line (`Outline.compact`) or with every part on a line of its own (`Outline.pretty`). `Item.outline` shows
everything an item holds.
-/

namespace ItemTree

inductive Outline where
  | word (text : String)
  | record (name : String) (fields : List (String × Outline))
  | tuple (name : String) (parts : List Outline)
  | list (parts : List Outline)

namespace Outline

mutual
/-- on one line; records and lists hold commas only between their parts -/
def compact : Outline → String
  | word text => text
  | record name fields => name ++ " \x7b" ++ compactFields true fields ++ " \x7d"
  | tuple name parts => name ++ "(" ++ compactParts true parts ++ ")"
  | list parts => "[" ++ compactParts true parts ++ "]"
def compactFields (first : Bool) : List (String × Outline) → String
  | [] => ""
  | (name, part) :: rest =>
    (if first then " " else ", ") ++ name ++ ": " ++ compact part ++ compactFields false rest
def compactParts (first : Bool) : List Outline → String
  | [] => ""
  | part :: rest => (if first then "" else ", ") ++ compact part ++ compactParts false rest
end

/-- four blanks for every level -/
def margin : Nat → String
  | 0 => ""
  | level + 1 => margin level ++ "    "

mutual
/-- over several lines: every part is one level deeper and ends in a comma; an empty list stays on its line -/
def prettyAt (level : Nat) : Outline → String
  | word text => text
  | record name fields => name ++ " \x7b\n" ++ prettyFields (level + 1) fields ++ margin level ++ "\x7d"
  | tuple name parts => name ++ "(\n" ++ prettyParts (level + 1) parts ++ margin level ++ ")"
  | list [] => "[]"
  | list (part :: rest) =>
    "[\n" ++ margin (level + 1) ++ prettyAt (level + 1) part ++ ",\n" ++ prettyParts (level + 1) rest ++ margin level
      ++ "]"
def prettyFields (level : Nat) : List (String × Outline) → String
  | [] => ""
  | (name, part) :: rest =>
    margin level ++ name ++ ": " ++ prettyAt level part ++ ",\n" ++ prettyFields level rest
def prettyParts (level : Nat) : List Outline → String
  | [] => ""
  | part :: rest => margin level ++ prettyAt level part ++ ",\n" ++ prettyParts level rest
end

def pretty (o : Outline) : String := prettyAt 0 o

def quoted (s : String) : Outline := word (Text.quoted s)

def ofBool (b : Bool) : Outline := word (Value.boolText b)

def ofNat (n : Nat) : Outline := word (natText n)

def ofOption : Option Outline → Outline
  | none => word "None"
  | some o => tuple "Some" [o]

end Outline

def Position.outline (p : Position) : Outline :=
  .record "Position" [("line", .ofNat p.line.toNat), ("column", .ofNat p.column.toNat)]

def Value.outline : Value → Outline
  | null => .word "Null"
  | bool b => .tuple "Bool" [.ofBool b]
  | integer n => .tuple "Integer" [.word (intText n.toInt)]
  | double d => .tuple "Double" [.word (Style.exact.text d)]
  | string s => .tuple "String" [.quoted s]

/-- of the observers only their number is shown -/
def Header.outline (h : Header) : Outline :=
  .record "ItemHeader"
    [ ("position", h.position.outline), ("value", h.value.outline), ("parenthesized", .ofBool h.parenthesized),
      ("observers", .ofNat h.observers.length) ]

def Modifier.outline (m : Modifier) : Outline := .word m.label

def TypeRef.outline : TypeRef → Outline
  | bare h => .record "TypeRef" [("header", h.outline), ("element", .ofOption none)]
  | applied h e => .record "TypeRef" [("header", h.outline), ("element", .ofOption (some e.outline))]

/-- outline of a block or of the block inside a file -/
def blockOutline (h : Header) (entries : List Outline) : Outline :=
  .record "ComplexItem" [("header", h.outline), ("contents", .list entries)]

/-- outline of a declaration, which a parameter has inside -/
def declarationOutline (h : Header) (ms : List Modifier) (t : Option TypeRef) (name content : Outline) : Outline :=
  .record "PropertyDeclaration"
    [ ("header", h.outline), ("modifiers", .list (ms.map Modifier.outline)),
      ("type_ref", .ofOption (t.map TypeRef.outline)), ("name", name), ("content", content) ]

mutual
def Item.outline : Item → Outline
  | .leaf h => .record "ValueItem" [("header", h.outline)]
  | .complex h es => blockOutline h (outlineEntries es)
  | .file h es n => .record "File" [("complex", blockOutline h (outlineEntries es)), ("file_name", .quoted n)]
  | .loop h i c p b =>
    .record "For"
      [ ("header", h.outline), ("initialization", outlineSlot i), ("condition", outlineSlot c),
        ("incrementation", outlineSlot p), ("content", outlineSlot b) ]
  | .type t => t.outline
  | .property h ms t n c => declarationOutline h ms t (outlineSlot n) (outlineSlot c)
  | .parameter h t n =>
    .record "FunctionParameter" [("declaration", declarationOutline h [] t (outlineSlot n) (.ofOption none))]
def outlineEntries : List Item → List Outline
  | [] => []
  | i :: is => i.outline :: outlineEntries is
def outlineSlot : Option Item → Outline
  | none => .ofOption none
  | some i => .ofOption (some i.outline)
end

end ItemTree
