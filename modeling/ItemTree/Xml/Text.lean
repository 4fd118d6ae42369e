import ItemTree.Xml.Node

/-!
# XML text of a node

A node without children closes itself; no blanks stand between nodes. In values the four characters of markup are
replaced by entities.
-/

namespace ItemTree.Xml

/-- every occurrence of a character replaced by a text -/
def replace (c : Char) (text : String) (s : List Char) : List Char :=
  s.flatMap fun x => if x = c then text.toList else [x]

/-- an attribute value between its quotes: ampersands are replaced first, so that no entity is touched again -/
def escape (s : List Char) : List Char :=
  replace '"' "&quot;" (replace '>' "&gt;" (replace '<' "&lt;" (replace '&' "&amp;" s)))

/-- a blank, the name, and the quoted value of each attribute -/
def attributeChars : Attributes → List Char
  | [] => []
  | (name, value) :: rest =>
    ' ' :: (name.toList ++ '=' :: '"' :: (escape value.toList ++ '"' :: attributeChars rest))

mutual
/-- a node -/
def chars : Node → List Char
  | ⟨tag, as, []⟩ => '<' :: (tag.toList ++ attributeChars as ++ ['/', '>'])
  | ⟨tag, as, c :: cs⟩ =>
    '<' :: (tag.toList ++ attributeChars as ++ '>' :: (chars c ++ allChars cs ++ '<' :: '/' :: (tag.toList ++ ['>'])))
/-- nodes one after the other -/
def allChars : List Node → List Char
  | [] => []
  | n :: ns => chars n ++ allChars ns
end

end ItemTree.Xml

namespace ItemTree.Node

/-- XML text -/
def text (n : Node) : String := String.ofList (Xml.chars n)

end ItemTree.Node
