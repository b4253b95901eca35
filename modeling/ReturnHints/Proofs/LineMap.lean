import ReturnHints.LineMap
import ReturnHints.Proofs.Text.Boundary

/-!
# The places of boundaries

The lines of a text start at boundaries, in increasing order, so halving finds the right one, and
two boundaries never share a place: the one further on is on a later line, or on the same line
behind more units.

    (ofText cs).lineOf o = number of breaks that end at or before o              (lineOf_ofText)
    o < o', both boundaries → the place of o is before the place of o'           (positionOf_before)
    hence boundaries with the same place are equal                               (positionOf_inj)
-/

namespace ReturnHints

/-! ## Where lines start -/

variable {cs : List Char} {o e : Nat}

/-- Every break ends behind all earlier ones. -/
theorem pairwise_breakEnds (o : Nat) (cs : List Char) :
    (o :: breakEnds o cs).Pairwise (· < ·) := by
  -- a later offset in front of the list can be replaced by an earlier one
  have lower : ∀ {o o' : Nat} {l : List Nat}, o < o' → (o' :: l).Pairwise (· < ·) →
      (o :: o' :: l).Pairwise (· < ·) := by
    intro o o' l hlt hl
    refine List.pairwise_cons.2 ⟨fun x hx => ?_, hl⟩
    rcases List.mem_cons.1 hx with rfl | hx
    · exact hlt
    · have := (List.pairwise_cons.1 hl).1 x hx
      omega
  fun_induction breakEnds o cs with
  | case1 o => exact List.pairwise_singleton _ _
  | case2 o rest ih => exact lower (by omega) ih
  | case3 o c rest _ _ ih => exact lower (by have := c.utf8Size_pos; omega) ih
  | case4 o c rest _ _ ih =>
    have hall := lower (o := o) (by have := c.utf8Size_pos; omega) ih
    exact hall.sublist (List.Sublist.cons_cons _ (List.sublist_cons_self _ _))

/-- Every break ends at a boundary. -/
theorem exists_of_mem_breakEnds (h : e ∈ breakEnds o cs) :
    ∃ front rest, cs = front ++ rest ∧ e = o + Text.byteLength front := by
  -- what stands before a break of the rest stands before it here, behind one more piece
  have shift : ∀ {o : Nat} {rest : List Char} (piece : List Char),
      (∃ front tail, rest = front ++ tail ∧
        e = o + Text.byteLength piece + Text.byteLength front) →
      ∃ front tail, piece ++ rest = front ++ tail ∧ e = o + Text.byteLength front := by
    rintro o rest piece ⟨front, tail, rfl, rfl⟩
    exact ⟨piece ++ front, tail, by simp, by rw [Text.byteLength_append]; omega⟩
  fun_induction breakEnds o cs with
  | case1 o => cases h
  | case2 o rest ih =>
    apply shift ['\r', '\n']
    rcases List.mem_cons.1 h with rfl | h
    · exact ⟨[], rest, rfl, rfl⟩
    · exact ih h
  | case3 o c rest _ _ ih =>
    apply shift [c]
    rcases List.mem_cons.1 h with rfl | h
    · exact ⟨[], rest, rfl, rfl⟩
    · exact ih h
  | case4 o c rest _ _ ih =>
    apply shift [c]
    exact ih h

/-- Every line starts at a boundary. -/
theorem isBoundary_of_mem_starts (h : e ∈ 0 :: breakEnds 0 cs) : Text.isBoundary cs e = true := by
  rcases List.mem_cons.1 h with rfl | h
  · exact Text.isBoundary_zero cs
  · obtain ⟨front, rest, hcs, he⟩ := exists_of_mem_breakEnds h
    rw [he, Nat.zero_add]
    exact Text.isBoundary_iff.2 ⟨front, rest, hcs, rfl⟩

/-! ## Halving -/

namespace LineMap

/-- Of increasing entries, those up to the answer are at most `x` and the others are above. -/
theorem firstAbove_spec {xs : Array Nat} (x : Nat) {lo hi : Nat}
    (hsorted : ∀ i j, i ≤ j → j < xs.size → xs.getD i 0 ≤ xs.getD j 0) (hlo : lo ≤ hi)
    (hhi : hi ≤ xs.size) (hbelow : ∀ j < lo, xs.getD j 0 ≤ x)
    (habove : ∀ j, hi ≤ j → j < xs.size → x < xs.getD j 0) :
    firstAbove xs x lo hi ≤ hi ∧ (∀ j < firstAbove xs x lo hi, xs.getD j 0 ≤ x) ∧
      ∀ j, firstAbove xs x lo hi ≤ j → j < xs.size → x < xs.getD j 0 := by
  fun_induction firstAbove xs x lo hi with
  | case1 lo hi hlt mid hle ih =>
    have hmid : mid < hi := by omega
    refine ih (by omega) hhi (fun j hj => ?_) habove
    have := hsorted j mid (by omega) (by omega)
    omega
  | case2 lo hi hlt mid hgt ih =>
    have hmid : mid < hi := by omega
    obtain ⟨hle, hbelow', habove'⟩ := ih (by omega) (by omega) hbelow fun j hj hjs => by
      have := hsorted mid j hj hjs
      omega
    exact ⟨by omega, hbelow', habove'⟩
  | case3 lo hi hge =>
    have heq : lo = hi := by omega
    subst heq
    exact ⟨Nat.le_refl _, hbelow, habove⟩

/-- Where a cut at `r` divides the small entries from the others, there are `r` small ones. -/
theorem countP_of_cut {l : List Nat} {x r : Nat} (hr : r ≤ l.length)
    (hcut : ∀ j (hj : j < l.length), l[j] ≤ x ↔ j < r) : l.countP (· ≤ x) = r := by
  have htake : (l.take r).countP (· ≤ x) = r := by
    rw [List.countP_eq_length.2, List.length_take, Nat.min_eq_left hr]
    intro y hy
    obtain ⟨j, hj, rfl⟩ := List.mem_iff_getElem.1 hy
    rw [List.length_take] at hj
    rw [List.getElem_take]
    exact decide_eq_true ((hcut j (by omega)).2 (by omega))
  have hdrop : (l.drop r).countP (· ≤ x) = 0 := by
    rw [List.countP_eq_zero]
    intro y hy
    obtain ⟨j, hj, rfl⟩ := List.mem_iff_getElem.1 hy
    rw [List.length_drop] at hj
    rw [List.getElem_drop, decide_eq_true_eq, hcut (r + j) (by omega)]
    omega
  rw [← List.take_append_drop r l, List.countP_append, htake, hdrop, Nat.add_zero]

/-- In an increasing list halving finds how many entries are at most `x`, and these come first. -/
theorem firstAbove_toArray {l : List Nat} (h : l.Pairwise (· < ·)) (x : Nat) :
    firstAbove l.toArray x 0 l.length = l.countP (· ≤ x) ∧
      ∀ j (hj : j < l.length), l[j] ≤ x ↔ j < l.countP (· ≤ x) := by
  have hget : ∀ j (hj : j < l.length), l.toArray.getD j 0 = l[j] := by
    intro j hj
    simp [hj]
  have hsorted : ∀ i j, i ≤ j → j < l.toArray.size → l.toArray.getD i 0 ≤ l.toArray.getD j 0 := by
    intro i j hij hj
    rw [List.size_toArray] at hj
    rw [hget i (by omega), hget j hj]
    rcases Nat.lt_or_eq_of_le hij with hlt | rfl
    · exact Nat.le_of_lt (List.pairwise_iff_getElem.1 h i j (by omega) hj hlt)
    · exact Nat.le_refl _
  obtain ⟨hle, hbelow, habove⟩ := firstAbove_spec x hsorted (Nat.zero_le l.length)
    (by simp) (by simp) (fun j hj hjs => by rw [List.size_toArray] at hjs; omega)
  rw [List.size_toArray] at habove
  generalize firstAbove l.toArray x 0 l.length = r at hle hbelow habove ⊢
  have hiff : ∀ j (hj : j < l.length), l[j] ≤ x ↔ j < r := by
    intro j hj
    rw [← hget j hj]
    constructor
    · intro hjx
      have := habove j
      omega
    · exact hbelow j
  rw [countP_of_cut hle hiff]
  exact ⟨rfl, hiff⟩

/-! ## Lines -/

/-- The line of an offset is the number of breaks before it. -/
theorem lineOf_ofText (cs : List Char) (o : Nat) :
    (ofText cs).lineOf o = (breakEnds 0 cs).countP (· ≤ o) := by
  have h := (firstAbove_toArray (pairwise_breakEnds 0 cs) o).1
  rw [List.countP_cons_of_pos (by simp)] at h
  show firstAbove (0 :: breakEnds 0 cs).toArray o 0 (0 :: breakEnds 0 cs).length - 1 = _
  rw [h, Nat.add_sub_cancel]

theorem lineOf_mono {o₁ o₂ : Nat} (cs : List Char) (h : o₁ ≤ o₂) :
    (ofText cs).lineOf o₁ ≤ (ofText cs).lineOf o₂ := by
  rw [lineOf_ofText, lineOf_ofText]
  refine List.countP_mono_left fun e _ he => ?_
  rw [decide_eq_true_eq] at he ⊢
  omega

theorem lineStart?_ofText (cs : List Char) (k : Nat) :
    (ofText cs).lineStart? k = (0 :: breakEnds 0 cs)[k]? := by
  show (0 :: breakEnds 0 cs).toArray[k]? = _
  rw [List.getElem?_toArray]

/-- The line of an offset starts at a boundary, not behind the offset. -/
theorem exists_lineStart (cs : List Char) (o : Nat) :
    ∃ b, (ofText cs).lineStart? ((ofText cs).lineOf o) = some b ∧ b ≤ o ∧
      Text.isBoundary cs b = true := by
  have hiff := (firstAbove_toArray (pairwise_breakEnds 0 cs) o).2
  have hline : (ofText cs).lineOf o < (0 :: breakEnds 0 cs).length := by
    rw [lineOf_ofText, List.length_cons]
    exact Nat.lt_succ_of_le (List.countP_le_length ..)
  have hle := (hiff _ hline).2 (by
    rw [List.countP_cons_of_pos (by simp), lineOf_ofText]
    exact Nat.lt_succ_self _)
  refine ⟨(0 :: breakEnds 0 cs)[(ofText cs).lineOf o], ?_, hle,
    isBoundary_of_mem_starts (List.getElem_mem hline)⟩
  rw [lineStart?_ofText, List.getElem?_eq_getElem hline]

end LineMap

/-! ## Places -/

/-- An earlier line, or the same line and an earlier column. -/
def Position.Before (p q : Position) : Prop :=
  p.line < q.line ∨ p.line = q.line ∧ p.character < q.character

theorem Position.Before.ne {p q : Position} (h : p.Before q) : p ≠ q := by
  rintro rfl
  rw [Before] at h
  omega

namespace LineMap

variable {o₁ o₂ : Nat}

/-- The column of a boundary counts the units from the start of its line. -/
theorem positionOf_boundary {b : Nat} {mid : List Char} (ho : Text.isBoundary cs o = true)
    (hb : (ofText cs).lineStart? ((ofText cs).lineOf o) = some b)
    (hmid : Text.slice? cs b o = some mid) :
    (ofText cs).positionOf cs o = ⟨(ofText cs).lineOf o, Text.unitLength mid⟩ := by
  simp only [positionOf, hb, Option.getD_some, Text.floorBoundary_of_isBoundary ho, hmid]

/-- Boundaries are placed in their order. -/
theorem positionOf_before (h₁ : Text.isBoundary cs o₁ = true) (h₂ : Text.isBoundary cs o₂ = true)
    (h : o₁ < o₂) :
    ((ofText cs).positionOf cs o₁).Before ((ofText cs).positionOf cs o₂) := by
  obtain ⟨b₁, hstart₁, hle₁, hb₁⟩ := exists_lineStart cs o₁
  obtain ⟨b₂, hstart₂, hle₂, hb₂⟩ := exists_lineStart cs o₂
  obtain ⟨mid₁, hmid₁⟩ := Text.exists_slice hb₁ h₁ hle₁
  obtain ⟨mid₂, hmid₂⟩ := Text.exists_slice hb₂ h₂ hle₂
  obtain ⟨gap, hgap⟩ := Text.exists_slice h₁ h₂ (Nat.le_of_lt h)
  rw [positionOf_boundary h₁ hstart₁ hmid₁, positionOf_boundary h₂ hstart₂ hmid₂]
  rcases Nat.lt_or_eq_of_le (lineOf_mono cs (Nat.le_of_lt h)) with hlt | heq
  · exact .inl hlt
  · refine .inr ⟨heq, ?_⟩
    -- on one line, the second column counts what the first one does and the gap
    rw [heq, hstart₂] at hstart₁
    obtain rfl := Option.some.inj hstart₁
    have hwhole := Text.slice?_append hmid₁ hgap
    rw [hmid₂] at hwhole
    obtain rfl := Option.some.inj hwhole
    have hne : gap ≠ [] := by
      rintro rfl
      obtain ⟨front, rest, _, hf, hf'⟩ := Text.slice?_eq_some_iff.1 hgap
      rw [List.append_nil] at hf'
      omega
    have hpos := Text.unitLength_pos hne
    show Text.unitLength mid₁ < Text.unitLength (mid₁ ++ gap)
    rw [Text.unitLength_append]
    omega

/-- Two boundaries do not share a place. -/
theorem positionOf_inj (h₁ : Text.isBoundary cs o₁ = true) (h₂ : Text.isBoundary cs o₂ = true)
    (h : (ofText cs).positionOf cs o₁ = (ofText cs).positionOf cs o₂) : o₁ = o₂ := by
  rcases Nat.lt_trichotomy o₁ o₂ with hlt | heq | hgt
  · exact absurd h (positionOf_before h₁ h₂ hlt).ne
  · exact heq
  · exact absurd h.symm (positionOf_before h₂ h₁ hgt).ne

end LineMap

end ReturnHints
