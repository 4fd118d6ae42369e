import ItemTree.Ident.Checksum
import ItemTree.Xml.Export

/-!
# Identifiers of exported nodes

The id of a document is the checksum of its address in hexadecimal. A `Generator` hands out the id of its document
with running numbers, and `Hook.assigningIds` puts one on every finished node.
-/

namespace ItemTree

/-- where documents live -/
def scheme : String := "qml://"

/-- a file name with the scheme in front, unless it is there already -/
def documentAddress (fileName : String) : String :=
  if scheme.toList.isPrefixOf fileName.toList then fileName else scheme ++ fileName

/-- hexadecimal checksum of the address, without leading zeros -/
def documentId (fileName : String) : String :=
  let sum := Checksum.crc32 (documentAddress fileName).toUTF8.data.toList
  String.ofList (Nat.toDigits 16 sum.toNat)

structure Generator where
  seed : String
  /-- number of ids handed out -/
  count : UInt32 := 0
  deriving DecidableEq, Repr

namespace Generator

def ofDocument (fileName : String) : Generator := { seed := documentId fileName }

/-- seed and ordinal -/
def idText (seed : String) (ordinal : Nat) : String := seed ++ "-" ++ String.ofList (Nat.toDigits 10 ordinal)

/-- the next id -/
def next (g : Generator) : String × Generator :=
  let count := g.count + 1
  (idText g.seed count.toNat, { g with count := count })

end Generator

namespace Hook

/-- the next id becomes an attribute of the node -/
def assigningIds : Hook Generator := fun n => do
  let id ← modifyGet Generator.next
  return n.set "Id" id

end Hook

end ItemTree
