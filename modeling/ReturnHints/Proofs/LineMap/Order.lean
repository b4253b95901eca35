import Mathlib.Order.Bounds.Basic
import ReturnHints.Proofs.LineMap.Step

/-!
# Places in the order of offsets

An offset has the place of the last boundary up to it, and boundaries are placed in their order.
So places never go back where offsets go on, and two offsets share a place only if they are
rounded down to the same boundary.

    a ≤ b → placeOf cs a is before placeOf cs b, or the same                      (placeOf_mono)
    placeOf cs a = placeOf cs b ↔ floorBoundary cs a = floorBoundary cs b         (placeOf_eq_iff)
    lineStart? k = some b → placeOf cs b = ⟨k, 0⟩                                (placeOf_lineStart)
-/

namespace ReturnHints

namespace Text

/-- Rounding down gives the last boundary up to an offset or the end of the text. -/
theorem isGreatest_floorBoundary (cs : List Char) (o : Nat) :
    IsGreatest {e | isBoundary cs e = true ∧ e ≤ min o (byteLength cs)}
      (floorBoundary cs (min o (byteLength cs))) := by
  constructor
  · exact ⟨isBoundary_floorBoundary cs _, floorBoundary_le cs _⟩
  · rintro e ⟨he, hle⟩
    exact le_floorBoundary he hle

theorem floorBoundary_mono (cs : List Char) {a b : Nat} (h : a ≤ b) :
    floorBoundary cs a ≤ floorBoundary cs b := by
  have hle := floorBoundary_le cs a
  exact le_floorBoundary (isBoundary_floorBoundary cs a) (by omega)

end Text

namespace LineMap

variable {cs : List Char} {a b k : Nat}

/-! ## Offsets in any order -/

theorem placeOf_mono (cs : List Char) (h : a ≤ b) :
    (placeOf cs a).Before (placeOf cs b) ∨ placeOf cs a = placeOf cs b := by
  rw [← placeOf_floorBoundary cs a, ← placeOf_floorBoundary cs b]
  rcases Nat.lt_or_eq_of_le (Text.floorBoundary_mono cs h) with hlt | heq
  · exact .inl (positionOf_before (Text.isBoundary_floorBoundary cs a)
      (Text.isBoundary_floorBoundary cs b) hlt)
  · exact .inr (by rw [heq])

theorem placeOf_eq_iff :
    placeOf cs a = placeOf cs b ↔ Text.floorBoundary cs a = Text.floorBoundary cs b := by
  rw [← placeOf_floorBoundary cs a, ← placeOf_floorBoundary cs b]
  constructor
  · intro h
    exact positionOf_inj (Text.isBoundary_floorBoundary cs a)
      (Text.isBoundary_floorBoundary cs b) h
  · intro h
    rw [h]

/-! ## Lines -/

theorem lineCount_ofText (cs : List Char) :
    (ofText cs).lineCount = (breakEnds 0 cs).length + 1 := by
  show (0 :: breakEnds 0 cs).toArray.size = _
  rw [List.size_toArray, List.length_cons]

theorem line_placeOf (cs : List Char) (o : Nat) :
    (placeOf cs o).line = (breakEnds 0 cs).countP (· ≤ o) :=
  lineOf_ofText cs o

theorem line_lt_lineCount (cs : List Char) (o : Nat) :
    (placeOf cs o).line < (ofText cs).lineCount := by
  rw [line_placeOf, lineCount_ofText]
  exact Nat.lt_succ_of_le (List.countP_le_length ..)

/-- The start of a line is on that line: the lines before it start before it, those behind it
behind it. -/
theorem lineOf_lineStart (h : (ofText cs).lineStart? k = some b) : (ofText cs).lineOf b = k := by
  rw [lineStart?_ofText] at h
  obtain ⟨hk, rfl⟩ := List.getElem?_eq_some_iff.1 h
  have hsorted := List.pairwise_iff_getElem.1 (pairwise_breakEnds 0 cs)
  have hcount := countP_of_cut (r := k + 1) hk fun j hj => by
    show (0 :: breakEnds 0 cs)[j] ≤ (0 :: breakEnds 0 cs)[k] ↔ j < k + 1
    rcases Nat.lt_trichotomy j k with hlt | rfl | hgt
    · have := hsorted j k hj hk hlt
      omega
    · omega
    · have := hsorted k j hk hj hgt
      omega
  rw [List.countP_cons_of_pos (by simp)] at hcount
  rw [lineOf_ofText]
  omega

/-- A line starts in its column zero. -/
theorem placeOf_lineStart (h : (ofText cs).lineStart? k = some b) : placeOf cs b = ⟨k, 0⟩ := by
  have hline := lineOf_lineStart h
  obtain ⟨start, hstart, _, hboundary⟩ := exists_lineStart cs b
  have hsame := hstart
  rw [hline, h] at hsame
  obtain rfl := Option.some.inj hsame
  have hempty : Text.slice? cs b b = some [] := by
    obtain ⟨front, rest, rfl, rfl⟩ := Text.isBoundary_iff.1 hboundary
    exact Text.slice?_eq_some_iff.2 ⟨front, rest, by simp, rfl, by simp⟩
  rw [placeOf, positionOf_boundary hboundary hstart hempty, hline]
  rfl

/-! ## The order -/

/-- Places follow the order of their offsets.  They are the same exactly for offsets that are cut
off at the end of the text and rounded down to the same boundary, so boundaries have different
places, in their order.  Each line starts in its column zero, and no place is on a line that the
text does not have. -/
theorem placeOf_order (cs : List Char) :
    (∀ a b, a ≤ b →
      ((placeOf cs a).Before (placeOf cs b) ∨ placeOf cs a = placeOf cs b) ∧
      (placeOf cs a = placeOf cs b ↔
        Text.floorBoundary cs (min a (Text.byteLength cs)) =
          Text.floorBoundary cs (min b (Text.byteLength cs)))) ∧
    (∀ o, IsGreatest {e | Text.isBoundary cs e = true ∧ e ≤ min o (Text.byteLength cs)}
      (Text.floorBoundary cs (min o (Text.byteLength cs)))) ∧
    (∀ a b, Text.isBoundary cs a = true → Text.isBoundary cs b = true →
      (a < b → (placeOf cs a).Before (placeOf cs b)) ∧ (placeOf cs a = placeOf cs b → a = b)) ∧
    (∀ k < (ofText cs).lineCount, ∃ start, (ofText cs).lineStart? k = some start ∧
      placeOf cs start = ⟨k, 0⟩) ∧
    ∀ o, (placeOf cs o).line < (ofText cs).lineCount := by
  refine ⟨fun a b hab => ⟨placeOf_mono cs hab, ?_⟩, Text.isGreatest_floorBoundary cs,
    fun a b ha hb => ⟨positionOf_before ha hb, positionOf_inj ha hb⟩, fun k hk => ?_,
    line_lt_lineCount cs⟩
  · rw [Text.floorBoundary_min, Text.floorBoundary_min, placeOf_eq_iff]
  · rw [lineCount_ofText, ← List.length_cons (a := 0)] at hk
    have hstart := (lineStart?_ofText cs k).trans (List.getElem?_eq_getElem hk)
    exact ⟨_, hstart, placeOf_lineStart hstart⟩

/-- Inside the rocket and behind it, between `\r` and `\n`, and past the end. -/
theorem placeOf_order_rocket :
    let cs := ['🚀', '\r', '\n', 'a']
    (placeOf cs 3 = placeOf cs 0 ∧ (placeOf cs 3).Before (placeOf cs 5)) ∧
    (placeOf cs 5).Before (placeOf cs 6) ∧ placeOf cs 7 = placeOf cs 99 ∧
    ∃ start, (ofText cs).lineStart? 1 = some start ∧ placeOf cs start = ⟨1, 0⟩ := by
  intro cs
  obtain ⟨horder, _, hboundaries, hlines, _⟩ := placeOf_order cs
  have hround := (horder 0 3 (by decide)).2.2 (by decide)
  have hcross := (hboundaries 5 6 (by decide) (by decide)).1 (by decide)
  refine ⟨⟨hround.symm, ?_⟩, hcross, (horder 7 99 (by decide)).2.2 (by decide),
    hlines 1 (by decide)⟩
  rw [← hround]
  exact (hboundaries 0 5 (by decide) (by decide)).1 (by decide)

end LineMap

end ReturnHints
