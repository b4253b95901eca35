import ReturnHints.Proofs.LineMap.Lines
import ReturnHints.Proofs.LineMap.Order

/-!
# Places after an insertion

A text without line breaks is put in at a boundary that does not divide a `\r\n`.  The places up to
there stay, and those behind it move along their line by the units of the new text, if they are on
the line of the insertion at all:

    placeOf (front ++ t ++ rest) x = placeOf (front ++ rest) x                for x ≤ |front|
    placeOf (front ++ t ++ rest) (|front| + (|t| + y))
      = (placeOf (front ++ rest) |front|).plus (⟨0, units of t⟩.plus (placeOf rest y))

So a list of insertions is carried out from the last one to the first, and the places of those that
are still to come are the ones they had in the text as it was.
-/

namespace ReturnHints

namespace Text

variable {cs front rest t : List Char} {o x : Nat}

/-! ## Insertions -/

/-- A boundary that does not divide a `\r\n`. -/
def IsSeam (cs : List Char) (o : Nat) : Prop :=
  ∃ front rest, cs = front ++ rest ∧ byteLength front = o ∧ Seam front rest

/-- The text with `t` put in at an offset; none if that is no boundary. -/
def insert? (cs : List Char) (o : Nat) (t : List Char) : Option (List Char) :=
  (takeBytes? cs o).bind fun front => (dropBytes? cs o).map fun rest => front ++ t ++ rest

/-- The text with several texts put in, beginning with the last entry of the list. -/
def insertAll? (cs : List Char) : List (Nat × List Char) → Option (List Char)
  | [] => some cs
  | (o, t) :: edits => (insertAll? cs edits).bind fun later => insert? later o t

theorem insert?_append (front rest t : List Char) :
    insert? (front ++ rest) (byteLength front) t = some (front ++ t ++ rest) := by
  rw [insert?, takeBytes?_append, dropBytes?_append]
  rfl

/-! ## Seams -/

theorem seam_of_breakFree (ht : BreakFree t) (rest : List Char) : Seam t rest := by
  rintro ⟨hlast, _⟩
  exact ht '\r' (List.mem_of_getLast? hlast) (by simp)

theorem Seam.insert (h : Seam front rest) (ht : BreakFree t) : Seam front (t ++ rest) := by
  cases t with
  | nil => exact h
  | cons c t =>
    rintro ⟨_, hhead⟩
    obtain rfl : c = '\n' := Option.some.inj hhead
    exact ht '\n' List.mem_cons_self (by simp)

/-- An insertion leaves the seams up to it. -/
theorem IsSeam.insert (hx : IsSeam (front ++ rest) x) (hle : x ≤ byteLength front)
    (hseam : Seam front rest) (ht : BreakFree t) : IsSeam (front ++ t ++ rest) x := by
  obtain ⟨front', rest', heq, rfl, hseam'⟩ := hx
  rcases List.append_eq_append_iff.1 heq with ⟨mid, rfl, rfl⟩ | ⟨mid, rfl, rfl⟩
  · -- the seam is not before the insertion, so it is there
    obtain rfl := eq_nil_of_byteLength_le hle
    refine ⟨front, t ++ rest', by simp, by simp, hseam.insert ht⟩
  · refine ⟨front', mid ++ (t ++ rest), by simp, rfl, ?_⟩
    cases mid with
    | nil =>
      rw [List.append_nil] at hseam
      exact hseam.insert ht
    | cons d mid => exact hseam'

end Text

/-- Where `q` begins `u` columns later, all that is on its first line is `u` columns further on. -/
theorem Position.plus_shift (p q : Position) (u : Nat) :
    p.plus (plus ⟨0, u⟩ q) =
      ⟨(p.plus q).line, if (p.plus q).line = p.line then (p.plus q).character + u
        else (p.plus q).character⟩ := by
  have hline : p.line + q.line = p.line ↔ q.line = 0 := by omega
  ext
  · simp only [line_plus, Nat.zero_add]
  · simp only [line_plus, character_plus, Nat.zero_add, hline]
    by_cases hq : q.line = 0
    · simp only [hq, if_true]
      omega
    · simp only [hq, if_false]

namespace LineMap

variable {s front rest t : List Char} {x : Nat}

/-! ## One insertion -/

/-- A text without breaks takes up its units on one line. -/
theorem placeOf_breakFree (ht : BreakFree t) :
    placeOf t (Text.byteLength t) = ⟨0, Text.unitLength t⟩ := by
  induction t with
  | nil => exact placeOf_eq_zero rfl
  | cons c t ih =>
    have hc : endsBreak [c] t = false := by
      have hnot : isLineBreak c = false := by
        rw [← Bool.not_eq_true, isLineBreak_iff]
        exact ht c List.mem_cons_self
      rw [endsBreak_singleton, hnot, Bool.false_and]
    have hrest := ih fun d hd => ht d (List.mem_cons_of_mem c hd)
    rw [Text.byteLength_cons, placeOf_cons, hrest, Position.step, hc]
    rfl

theorem placeOf_insert_before (hseam : Text.Seam front rest) (ht : BreakFree t)
    (hx : x ≤ Text.byteLength front) :
    placeOf (front ++ t ++ rest) x = placeOf (front ++ rest) x := by
  rw [List.append_assoc, placeOf_front (hseam.insert ht) hx, placeOf_front hseam hx]

theorem placeOf_insert_behind (hseam : Text.Seam front rest) (ht : BreakFree t) (y : Nat) :
    placeOf (front ++ t ++ rest) (Text.byteLength front + (Text.byteLength t + y)) =
      (placeOf (front ++ rest) (Text.byteLength front)).plus
        (Position.plus ⟨0, Text.unitLength t⟩ (placeOf rest y)) := by
  have hstart := placeOf_insert_before hseam ht (Nat.le_refl _)
  have hinner : placeOf (t ++ rest) (Text.byteLength t) = ⟨0, Text.unitLength t⟩ :=
    (placeOf_front (Text.seam_of_breakFree ht rest) (Nat.le_refl _)).trans (placeOf_breakFree ht)
  rw [List.append_assoc] at hstart ⊢
  rw [placeOf_append, hstart, placeOf_append, hinner]

/-- The end of the text is on its last line. -/
theorem lineCount_eq_line_end (cs : List Char) :
    (ofText cs).lineCount = (placeOf cs (Text.byteLength cs)).line + 1 := by
  have hall : (breakEnds 0 cs).countP (· ≤ Text.byteLength cs) = (breakEnds 0 cs).length := by
    rw [List.countP_eq_length]
    intro e he
    rw [decide_eq_true_eq]
    exact Text.le_byteLength_of_isBoundary
      (isBoundary_of_mem_starts (List.mem_cons_of_mem 0 he))
  rw [lineCount_ofText, line_placeOf, hall]

/-! ## Insertions from the last to the first -/

/-- Insertions leave the places and the seams that are not behind the first of them. -/
theorem insertAll?_keeps {edits : List (Nat × List Char)}
    (hsorted : edits.Pairwise fun e e' => e.1 ≤ e'.1)
    (hedits : ∀ e ∈ edits, Text.IsSeam s e.1 ∧ BreakFree e.2) :
    ∃ s', Text.insertAll? s edits = some s' ∧ ∀ x, (∀ e ∈ edits, x ≤ e.1) →
      placeOf s' x = placeOf s x ∧ (Text.IsSeam s x → Text.IsSeam s' x) := by
  induction edits with
  | nil => exact ⟨s, rfl, fun x _ => ⟨rfl, id⟩⟩
  | cons edit edits ih =>
    obtain ⟨o, t⟩ := edit
    obtain ⟨hfirst, hothers⟩ := List.pairwise_cons.1 hsorted
    obtain ⟨ho, ht⟩ := hedits (o, t) List.mem_cons_self
    obtain ⟨later, hlater, hkeeps⟩ := ih hothers fun e he => hedits e (List.mem_cons_of_mem _ he)
    -- the first offset is still a seam when its turn comes
    obtain ⟨front, rest, rfl, rfl, hseam⟩ := (hkeeps o hfirst).2 ho
    refine ⟨front ++ t ++ rest, ?_, fun x hx => ?_⟩
    · rw [Text.insertAll?, hlater]
      exact Text.insert?_append front rest t
    · have hxo : x ≤ Text.byteLength front := hx _ List.mem_cons_self
      obtain ⟨hplace, hkept⟩ := hkeeps x fun e he => hx e (List.mem_cons_of_mem _ he)
      refine ⟨?_, fun hxs => (hkept hxs).insert hxo hseam ht⟩
      rw [placeOf_insert_before hseam ht hxo, hplace]

/-! ## Stability -/

/-- A text `t` without breaks that is put in at a seam leaves the number of lines and all places up
to it.  Behind it the lines stay, and the columns grow by the units of `t` on the line of the
insertion and stay on the others.  So of insertions in the order of their offsets, with the later
ones carried out, the earlier ones have their places and can still be made there. -/
theorem placeOf_insert_stable (s : List Char) :
    (∀ o t, Text.IsSeam s o → BreakFree t →
      ∃ s', Text.insert? s o t = some s' ∧ (ofText s').lineCount = (ofText s).lineCount ∧
        (∀ x, x ≤ o → placeOf s' x = placeOf s x) ∧
        ∀ x, o ≤ x →
          (placeOf s' (x + Text.byteLength t)).line = (placeOf s x).line ∧
          (placeOf s' (x + Text.byteLength t)).character =
            if (placeOf s x).line = (placeOf s o).line
            then (placeOf s x).character + Text.unitLength t else (placeOf s x).character) ∧
    ∀ earlier later : List (Nat × List Char),
      (earlier ++ later).Pairwise (fun e e' => e.1 ≤ e'.1) →
      (∀ e ∈ earlier ++ later, Text.IsSeam s e.1 ∧ BreakFree e.2) →
      ∃ s', Text.insertAll? s later = some s' ∧
        ∀ e ∈ earlier, placeOf s' e.1 = placeOf s e.1 ∧ Text.IsSeam s' e.1 := by
  constructor
  · rintro o t ⟨front, rest, rfl, rfl, hseam⟩ ht
    have hbehind : ∀ x, Text.byteLength front ≤ x →
        placeOf (front ++ t ++ rest) (x + Text.byteLength t) =
          ⟨(placeOf (front ++ rest) x).line,
            if (placeOf (front ++ rest) x).line =
              (placeOf (front ++ rest) (Text.byteLength front)).line
            then (placeOf (front ++ rest) x).character + Text.unitLength t
            else (placeOf (front ++ rest) x).character⟩ := by
      intro x hx
      obtain ⟨y, rfl⟩ := Nat.exists_eq_add_of_le hx
      rw [Nat.add_assoc, Nat.add_comm y, placeOf_insert_behind hseam ht, placeOf_append,
        Position.plus_shift]
    refine ⟨_, Text.insert?_append front rest t, ?_, fun x hx => placeOf_insert_before hseam ht hx,
      fun x hx => by rw [hbehind x hx]; exact ⟨rfl, rfl⟩⟩
    -- the number of lines is read off the place of the end
    have hend : Text.byteLength (front ++ t ++ rest) =
        Text.byteLength (front ++ rest) + Text.byteLength t := by
      simp only [Text.byteLength_append]
      omega
    rw [lineCount_eq_line_end, lineCount_eq_line_end, hend,
      hbehind _ (by rw [Text.byteLength_append]; omega)]
  · intro earlier later hsorted hedits
    obtain ⟨_, hlater, hcross⟩ := List.pairwise_append.1 hsorted
    obtain ⟨s', hs', hkeeps⟩ := insertAll?_keeps hlater fun e he =>
      hedits e (List.mem_append_right earlier he)
    refine ⟨s', hs', fun e he => ?_⟩
    obtain ⟨hplace, hseam⟩ := hkeeps e.1 (hcross e he)
    exact ⟨hplace, hseam (hedits e (List.mem_append_left later he)).1⟩

/-- An insertion right before a `\r\n`, seen from between its halves and from the next line, and
the same one with a later one carried out. -/
theorem placeOf_insert_stable_before_break :
    let s := ['x', '\r', '\n', 'y', 'z']
    (∃ s', Text.insert? s 1 ['é'] = some s' ∧ (ofText s').lineCount = 2 ∧
      placeOf s' 1 = ⟨0, 1⟩ ∧ (placeOf s' 4).character = 3 ∧ (placeOf s' 6).character = 1) ∧
    ∃ s', Text.insertAll? s [(4, ['🚀'])] = some s' ∧ placeOf s' 1 = ⟨0, 1⟩ := by
  intro s
  have hfirst : Text.IsSeam s 1 :=
    ⟨['x'], ['\r', '\n', 'y', 'z'], rfl, by decide, by simp [Text.Seam]⟩
  have hsecond : Text.IsSeam s 4 :=
    ⟨['x', '\r', '\n', 'y'], ['z'], rfl, by decide, by simp [Text.Seam]⟩
  have hplace : placeOf s 1 = ⟨0, 1⟩ := by decide +kernel
  obtain ⟨hone, hmany⟩ := placeOf_insert_stable s
  constructor
  · obtain ⟨s', hs', hcount, hbefore, hbehind⟩ := hone 1 ['é'] hfirst (by decide)
    refine ⟨s', hs', hcount.trans (by decide), (hbefore 1 (by decide)).trans hplace, ?_, ?_⟩
    · exact (hbehind 2 (by decide)).2.trans (by decide +kernel)
    · exact (hbehind 4 (by decide)).2.trans (by decide +kernel)
  · obtain ⟨s', hs', hkept⟩ := hmany [(1, ['é'])] [(4, ['🚀'])] (by simp) (by
      intro e he
      rcases List.mem_cons.1 he with rfl | he
      · exact ⟨hfirst, by decide⟩
      · obtain rfl := List.mem_singleton.1 he
        exact ⟨hsecond, by decide⟩)
    exact ⟨s', hs', (hkept _ List.mem_cons_self).1.trans hplace⟩

end LineMap

end ReturnHints
