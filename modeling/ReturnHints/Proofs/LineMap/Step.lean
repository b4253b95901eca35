import ReturnHints.Proofs.LineMap.Scan

/-!
# Places, one character at a time

A character either ends its line or takes up its units on it, and the place of what follows is
counted on from there.  So the place in a text of two parts is put together from the places in the
parts, and the first part decides alone on the offsets up to its end, unless the cut divides a
`\r\n`.

    placeOf (c :: cs) (size of c + x) = (step c cs).plus (placeOf cs x)             (placeOf_cons)
    placeOf (front ++ rest) (|front| + x)
      = (placeOf (front ++ rest) |front|).plus (placeOf rest x)                     (placeOf_append)
    x ≤ |front| → Seam front rest → placeOf (front ++ rest) x = placeOf front x     (placeOf_front)
-/

namespace ReturnHints

/-! ## Places counted on from a place -/

attribute [ext] Position

namespace Position

/-- The place `q` of a text that begins at the place `p`: only on the first line the columns go
on. -/
def plus (p q : Position) : Position :=
  if q.line = 0 then ⟨p.line, p.character + q.character⟩ else ⟨p.line + q.line, q.character⟩

theorem line_plus (p q : Position) : (p.plus q).line = p.line + q.line := by
  unfold plus
  split
  · show p.line = _
    omega
  · rfl

theorem character_plus (p q : Position) :
    (p.plus q).character = if q.line = 0 then p.character + q.character else q.character := by
  unfold plus
  split <;> rfl

theorem zero_plus (p : Position) : plus ⟨0, 0⟩ p = p := by
  ext
  · rw [line_plus, Nat.zero_add]
  · rw [character_plus, Nat.zero_add, ite_self]

theorem plus_assoc (p q r : Position) : (p.plus q).plus r = p.plus (q.plus r) := by
  ext
  · simp only [line_plus, Nat.add_assoc]
  · simp only [character_plus, line_plus]
    by_cases hr : r.line = 0
    · by_cases hq : q.line = 0
      · simp [hr, hq, Nat.add_assoc]
      · simp [hr, hq]
    · simp [hr]

/-- How far a character moves the place, where `next` follows it. -/
def step (c : Char) (next : List Char) : Position :=
  if endsBreak [c] next then ⟨1, 0⟩ else ⟨0, Text.units16 c⟩

end Position

/-! ## Cutting behind the first character -/

namespace Text

variable {cs mid : List Char} {a b : Nat}

theorem floorBoundary_cons (c : Char) (cs : List Char) (x : Nat) :
    floorBoundary (c :: cs) (c.utf8Size + x) = c.utf8Size + floorBoundary cs x := by
  rw [floorBoundary, if_pos (Nat.le_add_right _ _), Nat.add_sub_cancel_left]

theorem slice?_cons (c : Char) (h : slice? cs a b = some mid) :
    slice? (c :: cs) (c.utf8Size + a) (c.utf8Size + b) = some mid := by
  obtain ⟨front, rest, rfl, rfl, rfl⟩ := slice?_eq_some_iff.1 h
  exact slice?_eq_some_iff.2 ⟨c :: front, rest, rfl, rfl, rfl⟩

theorem slice?_cons_zero (c : Char) (h : slice? cs 0 b = some mid) :
    slice? (c :: cs) 0 (c.utf8Size + b) = some (c :: mid) := by
  have hfirst : slice? (c :: cs) 0 c.utf8Size = some [c] :=
    slice?_eq_some_iff.2 ⟨[], cs, rfl, rfl, rfl⟩
  exact slice?_append hfirst (slice?_cons c h)

/-- Whether a text can be cut here without dividing a `\r\n`. -/
def Seam (front rest : List Char) : Prop :=
  ¬ (front.getLast? = some '\r' ∧ rest.head? = some '\n')

theorem Seam.of_cons {c d : Char} {front rest : List Char} (h : Seam (c :: d :: front) rest) :
    Seam (d :: front) rest := by
  rwa [Seam, List.getLast?_cons_cons] at h

end Text

variable {cs : List Char} {o : Nat}

theorem breakEnds_cons (c : Char) (cs : List Char) :
    breakEnds 0 (c :: cs) =
      (if endsBreak [c] cs then [c.utf8Size] else []) ++
        (breakEnds 0 cs).map (c.utf8Size + ·) := by
  rw [breakEnds_eq, map_breaks_cons, ← map_cut_breaks, List.map_map]
  simp only [Nat.zero_add]
  rfl

theorem Position.step_append {c : Char} {front rest : List Char} (h : Text.Seam (c :: front) rest) :
    step c (front ++ rest) = step c front := by
  have hends : endsBreak [c] (front ++ rest) = endsBreak [c] front := by
    rw [endsBreak_singleton, endsBreak_singleton]
    cases front with
    | nil =>
      have hor : c ≠ '\r' ∨ rest.head? ≠ some '\n' := by
        simpa [Text.Seam, Classical.or_iff_not_imp_left] using h
      rcases hor with hc | hrest
      · simp [hc]
      · simp [hrest]
    | cons d front => rfl
  rw [step, hends, step]

/-! ## The place of an offset -/

/-- The place of an offset of a text, by the lines of that text. -/
abbrev placeOf (cs : List Char) (o : Nat) : Position := (LineMap.ofText cs).positionOf cs o

namespace LineMap

theorem lineOf_cons (c : Char) (cs : List Char) (x : Nat) :
    (ofText (c :: cs)).lineOf (c.utf8Size + x) =
      (Position.step c cs).line + (ofText cs).lineOf x := by
  have hrest : ((breakEnds 0 cs).map (c.utf8Size + ·)).countP (· ≤ c.utf8Size + x) =
      (breakEnds 0 cs).countP (· ≤ x) := by
    rw [List.countP_map]
    refine List.countP_congr fun e _ => ?_
    simp
  rw [lineOf_ofText, lineOf_ofText, breakEnds_cons, List.countP_append, hrest, Position.step]
  split <;> simp

/-- What the column of an offset counts. -/
theorem exists_line (cs : List Char) (o : Nat) :
    ∃ b mid, (ofText cs).lineStart? ((ofText cs).lineOf o) = some b ∧
      Text.slice? cs b (Text.floorBoundary cs o) = some mid := by
  obtain ⟨b, hstart, hle, hb⟩ := exists_lineStart cs o
  obtain ⟨mid, hmid⟩ := Text.exists_slice hb (Text.isBoundary_floorBoundary cs o)
    (Text.le_floorBoundary hb hle)
  exact ⟨b, mid, hstart, hmid⟩

theorem positionOf_of_slice {b : Nat} {mid : List Char}
    (hb : (ofText cs).lineStart? ((ofText cs).lineOf o) = some b)
    (hmid : Text.slice? cs b (Text.floorBoundary cs o) = some mid) :
    placeOf cs o = ⟨(ofText cs).lineOf o, Text.unitLength mid⟩ := by
  simp only [placeOf, positionOf, hb, Option.getD_some, hmid]

/-- Before the end of the first character there is one place only. -/
theorem placeOf_eq_zero (h : Text.floorBoundary cs o = 0) : placeOf cs o = ⟨0, 0⟩ := by
  have hline : (ofText cs).lineOf o = 0 := by
    rw [lineOf_ofText, List.countP_eq_zero]
    intro e he
    have hpos := (List.pairwise_cons.1 (pairwise_breakEnds 0 cs)).1 e he
    have hle := Text.le_floorBoundary (o := o)
      (isBoundary_of_mem_starts (List.mem_cons_of_mem 0 he))
    simp only [decide_eq_true_eq]
    omega
  have hstart : (ofText cs).lineStart? ((ofText cs).lineOf o) = some 0 := by
    rw [hline, lineStart?_ofText]
    rfl
  have hmid : Text.slice? cs 0 (Text.floorBoundary cs o) = some [] := by
    rw [h]
    exact Text.slice?_eq_some_iff.2 ⟨[], cs, rfl, rfl, rfl⟩
  rw [positionOf_of_slice hstart hmid, hline]
  rfl

/-- The place behind the first character is counted on from where that character leads. -/
theorem placeOf_cons (c : Char) (cs : List Char) (x : Nat) :
    placeOf (c :: cs) (c.utf8Size + x) = (Position.step c cs).plus (placeOf cs x) := by
  obtain ⟨b, mid, hb, hmid⟩ := exists_line cs x
  have hline := lineOf_cons c cs x
  have hbehind := Text.slice?_cons c hmid
  rw [← Text.floorBoundary_cons] at hbehind
  rw [positionOf_of_slice hb hmid]
  have hb' := hb
  rw [lineStart?_ofText] at hb'
  by_cases hc : endsBreak [c] cs = true
  · -- the break of `c` adds a line in front, all others are further on by `c`
    have hstep : Position.step c cs = ⟨1, 0⟩ := by rw [Position.step, if_pos hc]
    rw [hstep] at hline ⊢
    have hstart : (ofText (c :: cs)).lineStart? ((ofText (c :: cs)).lineOf (c.utf8Size + x)) =
        some (c.utf8Size + b) := by
      rw [hline, lineStart?_ofText, breakEnds_cons, if_pos hc, Nat.add_comm 1]
      show (((0 :: breakEnds 0 cs).map (c.utf8Size + ·))[(ofText cs).lineOf x]?) = _
      rw [List.getElem?_map, hb']
      rfl
    rw [positionOf_of_slice hstart hbehind, hline]
    ext
    · rw [Position.line_plus]
    · rw [Position.character_plus, Nat.zero_add, ite_self]
  · have hstep : Position.step c cs = ⟨0, Text.units16 c⟩ := by rw [Position.step, if_neg hc]
    rw [hstep] at hline ⊢
    rw [Nat.zero_add] at hline
    cases hk : (ofText cs).lineOf x with
    | zero =>
      -- still on the first line, which starts in front of `c`
      rw [hk] at hb' hline
      obtain rfl : 0 = b := Option.some.inj hb'
      have hstart : (ofText (c :: cs)).lineStart? ((ofText (c :: cs)).lineOf (c.utf8Size + x)) =
          some 0 := by
        rw [hline, lineStart?_ofText]
        rfl
      have hslice := Text.slice?_cons_zero c hmid
      rw [← Text.floorBoundary_cons] at hslice
      rw [positionOf_of_slice hstart hslice, hline]
      rfl
    | succ k =>
      rw [hk] at hb' hline
      have hstart : (ofText (c :: cs)).lineStart? ((ofText (c :: cs)).lineOf (c.utf8Size + x)) =
          some (c.utf8Size + b) := by
        rw [hline, lineStart?_ofText, breakEnds_cons, if_neg hc, List.nil_append,
          List.getElem?_cons_succ, List.getElem?_map]
        rw [List.getElem?_cons_succ] at hb'
        rw [hb']
        rfl
      rw [positionOf_of_slice hstart hbehind, hline]
      ext
      · rw [Position.line_plus, Nat.zero_add]
      · rw [Position.character_plus, if_neg (Nat.succ_ne_zero k)]

/-- An offset has the place of the boundary it is rounded down to. -/
theorem placeOf_floorBoundary (cs : List Char) (o : Nat) :
    placeOf cs (Text.floorBoundary cs o) = placeOf cs o := by
  induction cs generalizing o with
  | nil => rw [placeOf_eq_zero (o := o) rfl, placeOf_eq_zero rfl]
  | cons c cs ih =>
    by_cases hc : c.utf8Size ≤ o
    · obtain ⟨x, rfl⟩ := Nat.exists_eq_add_of_le hc
      rw [Text.floorBoundary_cons, placeOf_cons, placeOf_cons, ih]
    · have hfloor : Text.floorBoundary (c :: cs) o = 0 := by rw [Text.floorBoundary, if_neg hc]
      rw [placeOf_eq_zero hfloor, hfloor]
      exact placeOf_eq_zero (Nat.le_zero.1 (Text.floorBoundary_le _ 0))

/-! ## Texts of two parts -/

/-- Behind the first part, places are counted on from its end. -/
theorem placeOf_append (front rest : List Char) (x : Nat) :
    placeOf (front ++ rest) (Text.byteLength front + x) =
      (placeOf (front ++ rest) (Text.byteLength front)).plus (placeOf rest x) := by
  induction front with
  | nil =>
    have hstart : placeOf rest 0 = ⟨0, 0⟩ :=
      placeOf_eq_zero (Nat.le_zero.1 (Text.floorBoundary_le rest 0))
    rw [List.nil_append, Text.byteLength_nil, Nat.zero_add, hstart, Position.zero_plus]
  | cons c front ih =>
    rw [List.cons_append, Text.byteLength_cons, Nat.add_assoc, placeOf_cons, placeOf_cons, ih,
      Position.plus_assoc]

/-- What follows a seam does not matter for the places before it. -/
theorem placeOf_front {front rest : List Char} {x : Nat} (hseam : Text.Seam front rest)
    (hx : x ≤ Text.byteLength front) : placeOf (front ++ rest) x = placeOf front x := by
  induction front generalizing x with
  | nil =>
    obtain rfl : x = 0 := Nat.le_zero.1 hx
    rw [placeOf_eq_zero (Nat.le_zero.1 (Text.floorBoundary_le _ 0)), placeOf_eq_zero rfl]
  | cons c front ih =>
    by_cases hc : c.utf8Size ≤ x
    · obtain ⟨y, rfl⟩ := Nat.exists_eq_add_of_le hc
      have hy : y ≤ Text.byteLength front := by
        rw [Text.byteLength_cons] at hx
        omega
      have hrest : Text.Seam front rest := by
        cases front with
        | nil => simp [Text.Seam]
        | cons d front => exact hseam.of_cons
      rw [List.cons_append, placeOf_cons, placeOf_cons, Position.step_append hseam, ih hrest hy]
    · have hfloor : ∀ next, Text.floorBoundary (c :: next) x = 0 := by
        intro next
        rw [Text.floorBoundary, if_neg hc]
      rw [List.cons_append, placeOf_eq_zero (hfloor _), placeOf_eq_zero (hfloor _)]

end LineMap

end ReturnHints
