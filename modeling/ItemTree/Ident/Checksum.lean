/-!
# CRC-32

The remainder of a byte sequence by the reflected polynomial `0xEDB88320`, started from all ones and complemented at
the end.
-/

namespace ItemTree.Checksum

abbrev Word := BitVec 32

def polynomial : Word := 0xEDB88320#32

/-- one bit out at the low end; the polynomial is added if it was set -/
def shift (c : Word) : Word := if c.getLsbD 0 then (c >>> 1) ^^^ polynomial else c >>> 1

/-- bits out, as many as the first argument says -/
def shifts : Nat → Word → Word
  | 0, c => c
  | n + 1, c => shift (shifts n c)

/-- a byte taken in at the low end -/
def addByte (c : Word) (b : UInt8) : Word := shifts 8 (c ^^^ BitVec.ofNat 32 b.toNat)

/-- the checksum of bytes -/
def crc32 (bytes : List UInt8) : Word := ~~~ (bytes.foldl addByte (BitVec.allOnes 32))

end ItemTree.Checksum
