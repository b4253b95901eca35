import ReturnHints.Position
import ReturnHints.Text.Units

/-!
# Lines of a text

A line ends after `\n`, `\r\n`, a lone `\r`, U+2028 or U+2029.  `LineMap.ofText` keeps the
offset at which each line starts, so that the line of an offset is found by halving, and its
column by counting the UTF-16 units between the start of the line and the offset.

    line      the last line that starts at or before the offset      (lineOf)
    column    the units from its start to the offset                 (positionOf)
-/

namespace ReturnHints

/-! ## Line breaks -/

/-- The characters that end a line by themselves.  A `\r` before `\n` is the first half of a
break. -/
def isLineBreak (c : Char) : Bool :=
  c == '\n' || c == '\r' || c == '\u2028' || c == '\u2029'

/-- The offsets right after the line breaks of a text that starts at offset `o`. -/
def breakEnds (o : Nat) : List Char → List Nat
  | [] => []
  | '\r' :: '\n' :: rest => (o + 2) :: breakEnds (o + 2) rest
  | c :: rest =>
    if isLineBreak c then (o + c.utf8Size) :: breakEnds (o + c.utf8Size) rest
    else breakEnds (o + c.utf8Size) rest

/-! ## The map -/

/-- The start offset of every line, in order. -/
structure LineMap where
  starts : Array Nat
deriving DecidableEq, Inhabited

namespace LineMap

/-- The first line starts at 0, each later one after a break. -/
def ofText (cs : List Char) : LineMap :=
  ⟨(0 :: breakEnds 0 cs).toArray⟩

def lineCount (m : LineMap) : Nat := m.starts.size

def lineStart? (m : LineMap) (line : Nat) : Option Nat := m.starts[line]?

/-- Between `lo` and `hi`, the first index whose entry is above `x` (`hi` if there is none), by
halving; the entries are increasing. -/
def firstAbove (xs : Array Nat) (x lo hi : Nat) : Nat :=
  if lo < hi then
    let mid := (lo + hi) / 2
    if xs.getD mid 0 ≤ x then firstAbove xs x (mid + 1) hi else firstAbove xs x lo mid
  else lo
termination_by hi - lo
decreasing_by all_goals omega

/-- The last line that starts at or before `offset`. -/
def lineOf (m : LineMap) (offset : Nat) : Nat :=
  firstAbove m.starts offset 0 m.starts.size - 1

/-- The place of a byte offset of the text `cs`, whose lines `m` describes.  An offset past the
end stands for the end, and one inside a character for its first byte. -/
def positionOf (m : LineMap) (cs : List Char) (offset : Nat) : Position :=
  let line := m.lineOf offset
  let start := (m.lineStart? line).getD 0
  let stop := Text.floorBoundary cs offset
  ⟨line, Text.unitLength ((Text.slice? cs start stop).getD [])⟩

end LineMap

end ReturnHints
