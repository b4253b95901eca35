import Mathlib.Order.Bounds.Basic
import ReturnHints.Proofs.Text.Boundary

/-!
# A search finds the first occurrence

The search for a word goes from character to character, so what it finds is the least offset at
which the word occurs:

    OccursAt word cs o : the word stands in the text behind exactly o bytes
    find? word cs = some o ↔ IsLeast {o | OccursAt word cs o} o              (find?_eq_some_iff)
    find? word cs = none ↔ ∀ o, ¬ OccursAt word cs o                         (find?_eq_none_iff)
-/

namespace ReturnHints.Text

variable {word cs front tail : List Char} {o : Nat}

/-! ## Occurrences -/

/-- The word stands in the text behind exactly `o` bytes. -/
def OccursAt (word cs : List Char) (o : Nat) : Prop :=
  ∃ front rest, cs = front ++ word ++ rest ∧ byteLength front = o

/-- From the end of `front` on, a word occurs where it occurs in the text behind. -/
theorem occursAt_append_iff :
    OccursAt word (front ++ tail) (byteLength front + o) ↔ OccursAt word tail o := by
  constructor
  · rintro ⟨before, rest, heq, hbefore⟩
    rw [List.append_assoc] at heq
    rcases List.append_eq_append_iff.1 heq with ⟨mid, rfl, rfl⟩ | ⟨mid, rfl, hrest⟩
    · refine ⟨mid, rest, by simp, ?_⟩
      rw [byteLength_append] at hbefore
      omega
    · -- the word would start before the end of `front`
      obtain rfl := eq_nil_of_byteLength_le
        (by omega : byteLength (before ++ mid) ≤ byteLength before)
      rw [List.append_nil] at hbefore
      exact ⟨[], rest, by simpa using hrest.symm, by rw [byteLength_nil]; omega⟩
  · rintro ⟨before, rest, rfl, rfl⟩
    exact ⟨front ++ before, rest, by simp, byteLength_append front before⟩

theorem occursAt_nil_iff : OccursAt word [] o ↔ o = 0 ∧ word = [] := by
  constructor
  · rintro ⟨front, rest, heq, rfl⟩
    obtain ⟨hword, _⟩ := List.append_eq_nil_iff.1 heq.symm
    obtain ⟨rfl, rfl⟩ := List.append_eq_nil_iff.1 hword
    exact ⟨rfl, rfl⟩
  · rintro ⟨rfl, rfl⟩
    exact ⟨[], [], rfl, rfl⟩

/-- A word occurs at the head of the text or behind its first character. -/
theorem occursAt_cons_iff {c : Char} :
    OccursAt word (c :: cs) o ↔
      o = 0 ∧ word <+: c :: cs ∨ ∃ o', o = c.utf8Size + o' ∧ OccursAt word cs o' := by
  constructor
  · rintro ⟨front, rest, heq, rfl⟩
    cases front with
    | nil => exact .inl ⟨rfl, rest, by simp [heq]⟩
    | cons d front =>
      obtain ⟨rfl, rfl⟩ := List.cons.inj heq
      exact .inr ⟨byteLength front, rfl, front, rest, rfl, rfl⟩
  · rintro (⟨rfl, rest, heq⟩ | ⟨o', rfl, front, rest, rfl, rfl⟩)
    · exact ⟨[], rest, by simp [heq], rfl⟩
    · exact ⟨c :: front, rest, rfl, rfl⟩

/-! ## The search -/

/-- The search stops at the first occurrence, and goes through the whole text only if there is
none. -/
theorem find?_cases (word cs : List Char) :
    (∃ o, find? word cs = some o ∧ IsLeast {o | OccursAt word cs o} o) ∨
      find? word cs = none ∧ ∀ o, ¬ OccursAt word cs o := by
  induction cs with
  | nil =>
    rw [find?]
    split
    · next hword =>
      have hoccurs : OccursAt word [] 0 := occursAt_nil_iff.2 ⟨rfl, List.isEmpty_iff.1 hword⟩
      exact .inl ⟨0, rfl, hoccurs, fun _ _ => Nat.zero_le _⟩
    · next hword =>
      refine .inr ⟨rfl, fun o ho => hword ?_⟩
      rw [(occursAt_nil_iff.1 ho).2, List.isEmpty_nil]
  | cons c cs ih =>
    rw [find?]
    split
    · next hprefix =>
      have hoccurs : OccursAt word (c :: cs) 0 :=
        occursAt_cons_iff.2 (.inl ⟨rfl, List.isPrefixOf_iff_prefix.1 hprefix⟩)
      exact .inl ⟨0, rfl, hoccurs, fun _ _ => Nat.zero_le _⟩
    · next hprefix =>
      -- what does not stand at the head stands behind the first character
      have hbehind : ∀ o, OccursAt word (c :: cs) o →
          ∃ o', o = c.utf8Size + o' ∧ OccursAt word cs o' := by
        intro o ho
        rcases occursAt_cons_iff.1 ho with ⟨_, hp⟩ | hbehind
        · exact absurd (List.isPrefixOf_iff_prefix.2 hp) hprefix
        · exact hbehind
      rcases ih with ⟨gap, hgap, hoccurs, hleast⟩ | ⟨hnone, hnot⟩
      · refine .inl ⟨c.utf8Size + gap, by rw [hgap, Option.map_some], ?_, ?_⟩
        · exact occursAt_cons_iff.2 (.inr ⟨gap, rfl, hoccurs⟩)
        · intro o ho
          obtain ⟨gap', rfl, ho'⟩ := hbehind o ho
          exact Nat.add_le_add_left (hleast ho') _
      · refine .inr ⟨by rw [hnone, Option.map_none], fun o ho => ?_⟩
        obtain ⟨gap', _, ho'⟩ := hbehind o ho
        exact hnot gap' ho'

theorem find?_eq_some_iff : find? word cs = some o ↔ IsLeast {o | OccursAt word cs o} o := by
  rcases find?_cases word cs with ⟨o', hfind, hleast⟩ | ⟨hfind, hnot⟩
  · rw [hfind, Option.some.injEq]
    constructor
    · rintro rfl
      exact hleast
    · exact hleast.unique
  · rw [hfind]
    constructor
    · intro h
      cases h
    · intro hleast
      exact absurd hleast.1 (hnot o)

theorem find?_eq_none_iff : find? word cs = none ↔ ∀ o, ¬ OccursAt word cs o := by
  rcases find?_cases word cs with ⟨o', hfind, hoccurs, _⟩ | ⟨hfind, hnot⟩
  · rw [hfind]
    constructor
    · intro h
      cases h
    · intro hnot
      exact absurd hoccurs (hnot o')
  · exact ⟨fun _ => hnot, fun _ => hfind⟩

/-- A word at the head of the text is found there. -/
theorem find?_append (word rest : List Char) : find? word (word ++ rest) = some 0 :=
  find?_eq_some_iff.2 ⟨⟨[], rest, rfl, rfl⟩, fun _ _ => Nat.zero_le _⟩

end ReturnHints.Text
