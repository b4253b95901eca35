import Mathlib.Data.Nat.Find
import ReturnHints.Proofs.LineMap

/-!
# Places by a plain scan

The place of an offset can be had without a table of lines: count the line breaks that end up to
the offset, and the units from the last one on.  Cuts are numbered by the characters before them
here, and a break is known by what stands on both sides of its end.

    breakEnds 0 cs = the offsets of breaks cs                                   (breakEnds_eq)
    floorBoundary cs o = the offset of the last cut up to o                     (floorBoundary_eq)
    (ofText cs).positionOf cs o = Position.scan cs o                            (positionOf_eq_scan)

The table is looked up and the text is cut without ever falling back on a default.
-/

namespace ReturnHints

namespace Text

variable {cs front rest : List Char} {o e low k : Nat}

/-! ## Sizes -/

theorem length_le_byteLength (cs : List Char) : cs.length ≤ byteLength cs := by
  induction cs with
  | nil => exact Nat.le_refl 0
  | cons c cs ih =>
    have := c.utf8Size_pos
    rw [List.length_cons, byteLength_cons]
    omega

/-- A character has at least as many bytes as units. -/
theorem units16_le_utf8Size (c : Char) : units16 c ≤ c.utf8Size := by
  unfold units16
  split
  · exact c.utf8Size_pos
  · next h =>
    have hval : 65536 ≤ c.toNat := by simpa [UInt32.lt_iff_toNat_lt] using h
    have habove : ∀ m : UInt32, m.toNat < 65536 → ¬ c.val ≤ m := by
      intro m hm hle
      have : c.toNat ≤ m.toNat := UInt32.le_iff_toNat_le.1 hle
      omega
    rw [Char.utf8Size, if_neg (habove _ (by decide)), if_neg (habove _ (by decide)),
      if_neg (habove _ (by decide))]
    omega

theorem unitLength_le_byteLength (cs : List Char) : unitLength cs ≤ byteLength cs := by
  induction cs with
  | nil => exact Nat.le_refl 0
  | cons c cs ih =>
    have := units16_le_utf8Size c
    rw [unitLength, byteLength_cons]
    omega

/-! ## Cuts -/

/-- The offset of the cut behind the first `k` characters. -/
def cut (cs : List Char) (k : Nat) : Nat := byteLength (cs.take k)

theorem cut_zero (cs : List Char) : cut cs 0 = 0 := by
  rw [cut, List.take_zero, byteLength_nil]

theorem cut_succ (c : Char) (cs : List Char) (k : Nat) :
    cut (c :: cs) (k + 1) = c.utf8Size + cut cs k := rfl

theorem cut_mono (cs : List Char) {j k : Nat} (h : j ≤ k) : cut cs j ≤ cut cs k := by
  have hsplit := List.take_append_drop j (cs.take k)
  rw [List.take_take, Nat.min_eq_left h] at hsplit
  rw [cut, cut, ← hsplit, byteLength_append]
  omega

/-- The boundaries are the offsets of the cuts. -/
theorem isBoundary_iff_cut : isBoundary cs o = true ↔ ∃ k ≤ cs.length, cut cs k = o := by
  rw [isBoundary_iff]
  constructor
  · rintro ⟨front, rest, rfl, rfl⟩
    refine ⟨front.length, by simp, ?_⟩
    rw [cut, List.take_left]
  · rintro ⟨k, _, rfl⟩
    exact ⟨cs.take k, cs.drop k, (List.take_append_drop k cs).symm, rfl⟩

theorem slice?_cut (cs : List Char) {j k : Nat} (h : j ≤ k) :
    slice? cs (cut cs j) (cut cs k) = some ((cs.take k).drop j) := by
  have hsplit := List.take_append_drop j (cs.take k)
  rw [List.take_take, Nat.min_eq_left h] at hsplit
  refine slice?_eq_some_iff.2 ⟨cs.take j, cs.drop k, ?_, rfl, ?_⟩
  · rw [hsplit, List.take_append_drop]
  · rw [hsplit, cut]

/-! ## The last boundary up to an offset -/

theorem isBoundary_floorBoundary (cs : List Char) (o : Nat) :
    isBoundary cs (floorBoundary cs o) = true := by
  induction cs generalizing o with
  | nil => exact isBoundary_zero []
  | cons c cs ih =>
    rw [floorBoundary]
    split
    · obtain ⟨front, rest, hcs, hlen⟩ := isBoundary_iff.1 (ih (o - c.utf8Size))
      refine isBoundary_iff.2 ⟨c :: front, rest, by rw [hcs]; rfl, ?_⟩
      rw [byteLength_cons, hlen]
    · exact isBoundary_zero _

/-- No boundary up to the offset lies further on. -/
theorem le_floorBoundary (he : isBoundary cs e = true) (hle : e ≤ o) : e ≤ floorBoundary cs o := by
  obtain ⟨front, rest, rfl, rfl⟩ := isBoundary_iff.1 he
  clear he
  induction front generalizing o with
  | nil => exact Nat.zero_le _
  | cons c front ih =>
    rw [byteLength_cons] at hle ⊢
    have hrest := ih (o := o - c.utf8Size) (by omega)
    rw [List.cons_append, floorBoundary, if_pos (by omega)]
    omega

theorem floorBoundary_le_byteLength (cs : List Char) (o : Nat) :
    floorBoundary cs o ≤ byteLength cs :=
  le_byteLength_of_isBoundary (isBoundary_floorBoundary cs o)

/-- An offset past the end stands for the end. -/
theorem floorBoundary_min (cs : List Char) (o : Nat) :
    floorBoundary cs (min o (byteLength cs)) = floorBoundary cs o := by
  have hle := floorBoundary_le cs (min o (byteLength cs))
  have hle' := floorBoundary_le cs o
  have hlen := floorBoundary_le_byteLength cs o
  apply Nat.le_antisymm
  · exact le_floorBoundary (isBoundary_floorBoundary cs _) (by omega)
  · exact le_floorBoundary (isBoundary_floorBoundary cs o) (by omega)

/-- The last cut up to an offset. -/
def lastCut (cs : List Char) (o : Nat) : Nat :=
  Nat.findGreatest (fun k => cut cs k ≤ o) cs.length

theorem floorBoundary_eq (cs : List Char) (o : Nat) :
    floorBoundary cs o = cut cs (lastCut cs o) := by
  have hcut : cut cs (lastCut cs o) ≤ o :=
    Nat.findGreatest_spec (P := fun k => cut cs k ≤ o) (Nat.zero_le cs.length)
      (by rw [cut_zero]; exact Nat.zero_le o)
  apply Nat.le_antisymm
  · obtain ⟨k, hk, heq⟩ := isBoundary_iff_cut.1 (isBoundary_floorBoundary cs o)
    rw [← heq]
    apply cut_mono
    apply Nat.le_findGreatest hk
    rw [heq]
    exact floorBoundary_le cs o
  · exact le_floorBoundary (isBoundary_iff_cut.2 ⟨_, Nat.findGreatest_le _, rfl⟩) hcut

/-- Goes back from an offset, byte by byte, to a boundary, but not below `low`. -/
def backUp (cs : List Char) (low : Nat) : Nat → Nat
  | 0 => 0
  | e + 1 => if low < e + 1 ∧ isBoundary cs (e + 1) = false then backUp cs low e else e + 1

/-- Going back ends at the last boundary, if it may go back to some boundary. -/
theorem backUp_eq (hlow : isBoundary cs low = true) (hle : low ≤ e) :
    backUp cs low e = floorBoundary cs e := by
  induction e with
  | zero =>
    have := floorBoundary_le cs 0
    rw [backUp]
    omega
  | succ e ih =>
    rw [backUp]
    by_cases hb : isBoundary cs (e + 1) = true
    · rw [if_neg (by simp [hb]), floorBoundary_of_isBoundary hb]
    · have hne : low ≠ e + 1 := by
        rintro rfl
        exact hb hlow
      rw [if_pos ⟨by omega, by simpa using hb⟩, ih (by omega)]
      have hfloor := floorBoundary_le cs (e + 1)
      have hfloor' := floorBoundary_le cs e
      have hne' : floorBoundary cs (e + 1) ≠ e + 1 := by
        intro heq
        rw [← heq] at hb
        exact hb (heq ▸ isBoundary_floorBoundary cs (e + 1))
      apply Nat.le_antisymm
      · exact le_floorBoundary (isBoundary_floorBoundary cs e) (by omega)
      · exact le_floorBoundary (isBoundary_floorBoundary cs (e + 1)) (by omega)

end Text

/-! ## Line breaks -/

/-- Whether a line break ends between `front` and `rest`.  A `\r` is a break of its own unless a
`\n` follows. -/
def endsBreak (front rest : List Char) : Bool :=
  match front.getLast? with
  | none => false
  | some c =>
    if c = '\r' then rest.head? != some '\n' else c == '\n' || c == '\u2028' || c == '\u2029'

/-- The cuts at which a line break ends, in order. -/
def breaks (cs : List Char) : List Nat :=
  (List.range (cs.length + 1)).filter fun k => endsBreak (cs.take k) (cs.drop k)

theorem endsBreak_nil (rest : List Char) : endsBreak [] rest = false := rfl

theorem endsBreak_cons (c d : Char) (front rest : List Char) :
    endsBreak (c :: d :: front) rest = endsBreak (d :: front) rest := by
  rw [endsBreak, List.getLast?_cons_cons, endsBreak]

/-- A break ends behind the first character, or further on. -/
theorem breaks_cons (c : Char) (cs : List Char) :
    breaks (c :: cs) = (if endsBreak [c] cs then [1] else []) ++ (breaks cs).map (· + 1) := by
  -- from the second character on, the first one does not matter
  have hrest : ∀ k ∈ List.range cs.length,
      endsBreak (c :: cs.take (k + 1)) (cs.drop (k + 1)) =
        endsBreak (cs.take (k + 1)) (cs.drop (k + 1)) := by
    intro k hk
    cases cs with
    | nil => simp at hk
    | cons d cs => rw [List.take_succ_cons, endsBreak_cons]
  have hcs : breaks cs = ((List.range cs.length).map Nat.succ).filter
      fun k => endsBreak (c :: cs.take k) (cs.drop k) := by
    rw [breaks, List.range_succ_eq_map, List.filter_cons_of_neg (by simp [endsBreak_nil]),
      List.filter_map, List.filter_map]
    exact congrArg _ (List.filter_congr hrest).symm
  rw [hcs, breaks, List.length_cons, List.range_succ_eq_map,
    List.filter_cons_of_neg (by simp [endsBreak_nil]), List.filter_map]
  show ((List.range (cs.length + 1)).filter
    fun k => endsBreak (c :: cs.take k) (cs.drop k)).map Nat.succ = _
  rw [List.range_succ_eq_map, List.filter_cons]
  by_cases hc : endsBreak [c] cs = true
  · simp [hc]
  · simp [hc]

theorem length_breaks_le (cs : List Char) : (breaks cs).length ≤ cs.length := by
  induction cs with
  | nil => exact Nat.le_refl 0
  | cons c cs ih =>
    rw [breaks_cons, List.length_append, List.length_map, List.length_cons]
    split
    · rw [List.length_singleton]
      omega
    · rw [List.length_nil]
      omega

/-- The offsets of the breaks, in a text that starts at offset `o`. -/
theorem map_breaks_cons (o : Nat) (c : Char) (cs : List Char) :
    ((breaks (c :: cs)).map fun k => o + Text.cut (c :: cs) k) =
      (if endsBreak [c] cs then [o + c.utf8Size] else []) ++
        (breaks cs).map fun k => o + c.utf8Size + Text.cut cs k := by
  have hfirst : Text.cut (c :: cs) 1 = c.utf8Size := by
    rw [Text.cut_succ, Text.cut_zero, Nat.add_zero]
  rw [breaks_cons, List.map_append, List.map_map]
  congr 1
  · split
    · rw [List.map_singleton, hfirst]
    · rfl
  · refine List.map_congr_left fun k _ => ?_
    rw [Function.comp_apply, Text.cut_succ, Nat.add_assoc]

theorem endsBreak_singleton (c : Char) (cs : List Char) :
    endsBreak [c] cs = (isLineBreak c && !(c == '\r' && cs.head? == some '\n')) := by
  rw [endsBreak, List.getLast?_singleton]
  by_cases hc : c = '\r'
  · subst hc
    simp [isLineBreak, bne]
  · have hne : (c == '\r') = false := beq_false_of_ne hc
    simp [isLineBreak, hc, hne]

/-- The table of lines has the breaks, by their offsets. -/
theorem breakEnds_eq (o : Nat) (cs : List Char) :
    breakEnds o cs = (breaks cs).map fun k => o + Text.cut cs k := by
  fun_induction breakEnds o cs with
  | case1 o => rfl
  | case2 o rest ih =>
    have hr : endsBreak ['\r'] ('\n' :: rest) = false := by simp [endsBreak_singleton]
    have hn : endsBreak ['\n'] rest = true := by simp [endsBreak_singleton, isLineBreak]
    rw [map_breaks_cons, map_breaks_cons, hr, hn, ih]
    rfl
  | case3 o c rest hpat hbreak ih =>
    have hc : endsBreak [c] rest = true := by
      rw [endsBreak_singleton, hbreak]
      cases rest with
      | nil => simp
      | cons d rest =>
        have hor : c ≠ '\r' ∨ d ≠ '\n' := by
          by_cases hc : c = '\r'
          · exact .inr fun hd => hpat rest hc (by rw [hd])
          · exact .inl hc
        simpa using hor
    rw [map_breaks_cons, hc, ih]
    rfl
  | case4 o c rest hpat hbreak ih =>
    have hc : endsBreak [c] rest = false := by
      rw [endsBreak_singleton]
      simp [hbreak]
    rw [map_breaks_cons, hc, ih]
    rfl

/-! ## The scan -/

/-- The breaks that end at or before an offset. -/
def ended (cs : List Char) (o : Nat) : List Nat := (breaks cs).filter fun k => Text.cut cs k ≤ o

/-- The place of an offset by counting: the breaks up to it, and the units between the end of the
last one, or the start of the text, and the last cut up to the offset or the end of the text. -/
def Position.scan (cs : List Char) (o : Nat) : Position :=
  let start := (ended cs o).getLast?.getD 0
  let stop := Text.lastCut cs (min o (Text.byteLength cs))
  ⟨(ended cs o).length, Text.unitLength ((cs.take stop).drop start)⟩

variable {cs : List Char} {o : Nat}

/-- Where a measure increases along a list, its small values come first. -/
theorem filter_le_eq_take {α : Type} (g : α → Nat) {l : List α} (h : (l.map g).Pairwise (· < ·))
    (x : Nat) : l.filter (fun a => g a ≤ x) = l.take (l.filter fun a => g a ≤ x).length := by
  induction l with
  | nil => rfl
  | cons a l ih =>
    rw [List.map_cons, List.pairwise_cons] at h
    by_cases ha : g a ≤ x
    · rw [List.filter_cons_of_pos (by simpa using ha), List.length_cons, List.take_succ_cons]
      exact congrArg (a :: ·) (ih h.2)
    · have hnil : l.filter (fun a => g a ≤ x) = [] := by
        rw [List.filter_eq_nil_iff]
        intro b hb
        have := h.1 (g b) (List.mem_map_of_mem hb)
        simp
        omega
      rw [List.filter_cons_of_neg (by simpa using ha), hnil]
      rfl

theorem map_cut_breaks (cs : List Char) : (breaks cs).map (Text.cut cs) = breakEnds 0 cs := by
  rw [breakEnds_eq]
  refine List.map_congr_left fun k _ => ?_
  rw [Nat.zero_add]

theorem ended_eq_take (cs : List Char) (o : Nat) :
    ended cs o = (breaks cs).take (ended cs o).length := by
  apply filter_le_eq_take
  rw [map_cut_breaks]
  exact (List.pairwise_cons.1 (pairwise_breakEnds 0 cs)).2

namespace LineMap

theorem lineOf_eq_length (cs : List Char) (o : Nat) :
    (ofText cs).lineOf o = (ended cs o).length := by
  rw [lineOf_ofText, ← map_cut_breaks, List.countP_map, List.countP_eq_length_filter]
  rfl

/-- The line of an offset starts where the last break up to it ends. -/
theorem lineStart?_lineOf (cs : List Char) (o : Nat) :
    (ofText cs).lineStart? ((ofText cs).lineOf o) =
      some (Text.cut cs ((ended cs o).getLast?.getD 0)) := by
  have hlen : (ended cs o).length ≤ (breaks cs).length := List.length_filter_le _ _
  have htake := ended_eq_take cs o
  rw [lineStart?_ofText, lineOf_eq_length, ← map_cut_breaks]
  cases hn : (ended cs o).length with
  | zero =>
    rw [List.eq_nil_of_length_eq_zero hn]
    simp [Text.cut_zero]
  | succ m =>
    rw [hn] at htake hlen
    have hm : m < (breaks cs).length := by omega
    rw [htake, List.getLast?_take, List.getElem?_cons_succ, List.getElem?_map]
    simp [hm]

theorem le_of_mem_ended {k : Nat} (hk : k ∈ ended cs o) : k ≤ cs.length ∧ Text.cut cs k ≤ o := by
  obtain ⟨hmem, hle⟩ := List.mem_filter.1 hk
  have hrange := List.mem_range.1 (List.mem_filter.1 hmem).1
  exact ⟨by omega, by simpa using hle⟩

/-- The last break up to an offset does not end behind the last cut up to it. -/
theorem lineStart_le_lastCut (cs : List Char) (o : Nat) :
    (ended cs o).getLast?.getD 0 ≤ Text.lastCut cs (min o (Text.byteLength cs)) := by
  cases hlast : (ended cs o).getLast? with
  | none => exact Nat.zero_le _
  | some k =>
    obtain ⟨hk, hle⟩ := le_of_mem_ended (List.mem_of_getLast? hlast)
    have hlen := Text.le_byteLength_of_isBoundary (Text.isBoundary_iff_cut.2 ⟨k, hk, rfl⟩)
    apply Nat.le_findGreatest hk
    omega

/-- The place that is looked up in the table of lines is the one that is counted.  No default is
needed on the way: the table has the line, going back from the offset (or from the end of the
text) to a boundary does not lead before the start of the line, and the text can be cut at both.
No number is larger than the text is long. -/
theorem positionOf_eq_scan (cs : List Char) (o : Nat) :
    (ofText cs).positionOf cs o = Position.scan cs o ∧
    (∃ start stop mid, (ofText cs).lineStart? ((ofText cs).lineOf o) = some start ∧
      stop = Text.backUp cs start (min o (Text.byteLength cs)) ∧
      stop = Text.floorBoundary cs o ∧ min start stop = start ∧
      Text.slice? cs start stop = some mid) ∧
    (Position.scan cs o).line ≤ Text.byteLength cs ∧
    (Position.scan cs o).character ≤ Text.byteLength cs := by
  have hstart := lineStart?_lineOf cs o
  have hle := lineStart_le_lastCut cs o
  have hfloor := Text.floorBoundary_eq cs (min o (Text.byteLength cs))
  rw [Text.floorBoundary_min] at hfloor
  have hslice := Text.slice?_cut cs hle
  have hcut := Text.cut_mono cs hle
  rw [← hfloor] at hslice hcut
  refine ⟨?_, ⟨_, _, _, hstart, ?_, rfl, Nat.min_eq_left hcut, hslice⟩, ?_, ?_⟩
  · simp only [positionOf, hstart, Option.getD_some, hslice]
    rw [lineOf_eq_length]
    rfl
  · have hlast : Text.lastCut cs (min o (Text.byteLength cs)) ≤ cs.length := Nat.findGreatest_le _
    have hboundary := Text.isBoundary_iff_cut.2 ⟨_, Nat.le_trans hle hlast, rfl⟩
    have hmin : Text.floorBoundary cs o ≤ min o (Text.byteLength cs) :=
      Nat.le_min.2 ⟨Text.floorBoundary_le cs o, Text.floorBoundary_le_byteLength cs o⟩
    rw [Text.backUp_eq hboundary (Nat.le_trans hcut hmin), Text.floorBoundary_min]
  · calc (ended cs o).length ≤ (breaks cs).length := List.length_filter_le _ _
      _ ≤ cs.length := length_breaks_le cs
      _ ≤ Text.byteLength cs := Text.length_le_byteLength cs
  · obtain ⟨front, rest, hcs, _⟩ := Text.slice?_eq_some_iff.1 hslice
    have hunits := Text.unitLength_le_byteLength
      ((cs.take (Text.lastCut cs (min o (Text.byteLength cs)))).drop ((ended cs o).getLast?.getD 0))
    have hbytes := congrArg Text.byteLength hcs
    rw [Text.byteLength_append, Text.byteLength_append] at hbytes
    show Text.unitLength _ ≤ _
    omega

/-- Between `\r` and `\n`, inside a line separator and behind it. -/
example :
    [2, 4, 6].map (Position.scan ['a', '\r', '\n', '\u2028', 'b']) = [⟨0, 2⟩, ⟨1, 0⟩, ⟨2, 0⟩] := by
  decide

end LineMap

end ReturnHints
