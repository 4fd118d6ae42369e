/-!
# Text with indentation

A `Writer` holds the text written so far and the unit of indentation, which never changes.
-/

namespace ItemTree

structure Writer where
  output : String := ""
  unit : String := "    "
  deriving DecidableEq, Repr

namespace Writer

/-- a unit `level` times -/
def indentation (unit : String) : Nat → String
  | 0 => ""
  | level + 1 => indentation unit level ++ unit

/-- text as it is -/
def write (w : Writer) (text : String) : Writer := { w with output := w.output ++ text }

def newline (w : Writer) : Writer := w.write "\n"

/-- indentation, then text -/
def writeAt (w : Writer) (level : Nat) (text : String) : Writer := (w.write (indentation w.unit level)).write text

/-- indentation, text, line feed -/
def lineAt (w : Writer) (level : Nat) (text : String) : Writer := (w.writeAt level text).newline

end Writer

end ItemTree
