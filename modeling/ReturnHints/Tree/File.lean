import ReturnHints.LineMap
import ReturnHints.Tree.Arena

/-!
# Source files

A file is its text together with the tree of its nodes: places and the text of a node are
answered from both.
-/

namespace ReturnHints

structure File where
  name : String
  text : String
  arena : Arena
  root : NodeId
deriving DecidableEq, Inhabited

namespace File

def lines (f : File) : LineMap := .ofText f.text.toList

/-- The place of a byte offset of the text. -/
def positionOf (f : File) (offset : Nat) : Position :=
  f.lines.positionOf f.text.toList offset

/-- Number of bytes of the text. -/
def byteLength (f : File) : Nat := Text.byteLength f.text.toList

/-- The text of a node's span; none if the span does not cut the text between characters. -/
def textOf? (f : File) (i : NodeId) : Option String :=
  (f.arena.node? i).bind fun n =>
    (Text.slice? f.text.toList n.start n.stop).map String.ofList

end File

end ReturnHints
