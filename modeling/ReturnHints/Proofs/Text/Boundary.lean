import Mathlib.Data.List.Basic
import ReturnHints.Text.Units

/-!
# Boundaries of a text

An offset is a boundary if a prefix of the text has that many bytes, and there is only one such
prefix.  So the pieces between boundaries are known by their offsets:

    isBoundary cs o = true ↔ ∃ front rest, cs = front ++ rest ∧ byteLength front = o
                                                                                (isBoundary_iff)
    two boundaries cut a piece out of the text, and pieces side by side make one
                                                                 (exists_slice, slice?_append)
-/

namespace ReturnHints.Text

variable {cs front mid rest : List Char} {a b o p q : Nat}

theorem isBoundary_iff :
    isBoundary cs o = true ↔ ∃ front rest, cs = front ++ rest ∧ byteLength front = o := by
  rw [isBoundary, Option.isSome_iff_exists]
  constructor
  · rintro ⟨rest, h⟩
    obtain ⟨front, hf⟩ := dropBytes?_eq_some_iff.1 h
    exact ⟨front, rest, hf⟩
  · rintro ⟨front, rest, hf⟩
    exact ⟨rest, dropBytes?_eq_some_iff.2 ⟨front, hf⟩⟩

theorem isBoundary_append (front rest : List Char) :
    isBoundary (front ++ rest) (byteLength front) = true :=
  isBoundary_iff.2 ⟨front, rest, rfl, rfl⟩

theorem isBoundary_zero (cs : List Char) : isBoundary cs 0 = true := isBoundary_append [] cs

theorem le_byteLength_of_isBoundary (h : isBoundary cs o = true) : o ≤ byteLength cs := by
  obtain ⟨front, rest, rfl, rfl⟩ := isBoundary_iff.1 h
  rw [byteLength_append]
  omega

theorem byteLength_pos (h : cs ≠ []) : 0 < byteLength cs := by
  cases cs with
  | nil => exact absurd rfl h
  | cons c cs =>
    have := c.utf8Size_pos
    rw [byteLength_cons]
    omega

theorem unitLength_pos (h : cs ≠ []) : 0 < unitLength cs := by
  cases cs with
  | nil => exact absurd rfl h
  | cons c cs =>
    rw [unitLength, units16]
    split <;> omega

theorem eq_nil_of_byteLength_le (h : byteLength (front ++ mid) ≤ byteLength front) : mid = [] := by
  refine Classical.byContradiction fun hne => ?_
  have := byteLength_pos hne
  rw [byteLength_append] at h
  omega

/-- A prefix of a text is known by the number of its bytes. -/
theorem prefix_unique {front' rest' : List Char} (h : front ++ rest = front' ++ rest')
    (hlen : byteLength front = byteLength front') : front = front' := by
  have htake := takeBytes?_append front rest
  rw [h, hlen, takeBytes?_append] at htake
  exact (Option.some.inj htake).symm

/-- Two boundaries cut a piece out of the text. -/
theorem exists_slice (ha : isBoundary cs a = true) (hb : isBoundary cs b = true) (hab : a ≤ b) :
    ∃ mid, slice? cs a b = some mid := by
  obtain ⟨front, rest, rfl, rfl⟩ := isBoundary_iff.1 ha
  obtain ⟨front', rest', heq, rfl⟩ := isBoundary_iff.1 hb
  rcases List.append_eq_append_iff.1 heq with ⟨mid, rfl, rfl⟩ | ⟨mid, rfl, rfl⟩
  · exact ⟨mid, slice?_eq_some_iff.2 ⟨front, rest', by simp, rfl, rfl⟩⟩
  · obtain rfl := eq_nil_of_byteLength_le hab
    exact ⟨[], slice?_eq_some_iff.2 ⟨front', rest, by simp, by simp, by simp⟩⟩

theorem slice?_append {c : Nat} {mid' : List Char} (h : slice? cs a b = some mid)
    (h' : slice? cs b c = some mid') : slice? cs a c = some (mid ++ mid') := by
  obtain ⟨front, rest, rfl, rfl, rfl⟩ := slice?_eq_some_iff.1 h
  obtain ⟨front', rest', heq, hlen, rfl⟩ := slice?_eq_some_iff.1 h'
  have hfront : front ++ mid = front' := by
    rw [List.append_assoc front'] at heq
    exact prefix_unique heq hlen.symm
  subst hfront
  exact slice?_eq_some_iff.2 ⟨front, rest', by rw [heq]; simp, rfl, by simp⟩

theorem floorBoundary_of_isBoundary (h : isBoundary cs o = true) : floorBoundary cs o = o := by
  obtain ⟨front, rest, rfl, rfl⟩ := isBoundary_iff.1 h
  induction front with
  | nil =>
    have := floorBoundary_le rest 0
    simp only [List.nil_append, byteLength_nil]
    omega
  | cons c front ih =>
    have hrest := ih (isBoundary_append front rest)
    rw [List.cons_append, floorBoundary, byteLength_cons, if_pos (Nat.le_add_right _ _),
      Nat.add_sub_cancel_left, hrest]

end ReturnHints.Text
