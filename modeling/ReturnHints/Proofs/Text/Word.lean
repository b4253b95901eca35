import Mathlib.Data.List.Basic
import Mathlib.Data.List.Forall2
import Mathlib.Data.List.TakeWhile
import ReturnHints.Text.Blank

/-!
# Words of settings, whatever lower case is

`settingWord` lowers the letters A to Z alone.  For words that have neither an `i` nor a `k` this
is as good as lowering by all rules of Unicode:

    Trims s t                t is s without the blanks at its ends: t = trim s   (trims_iff)
    Lowering lower           lower follows the rules of Unicode
    lower s = w ↔ s.map Char.toLower = w, if w is plain                          (Lowering.eq_iff)
-/

namespace ReturnHints.Text

/-! ## Blanks at the ends -/

/-- `t` is what stands between the blanks at the ends of `s`. -/
structure Trims (s t : List Char) : Prop where
  around : ∃ front back, s = front ++ t ++ back ∧ ∀ c ∈ front ++ back, isBlank c = true
  starts : ∀ c ∈ t.head?, isBlank c = false
  ends : ∀ c ∈ t.getLast?, isBlank c = false

theorem dropWhile_of_head {t : List Char} (h : ∀ c ∈ t.head?, isBlank c = false) :
    t.dropWhile isBlank = t := by
  cases t with
  | nil => rfl
  | cons c t => rw [List.dropWhile_cons_of_neg (by simp [h c rfl])]

theorem head_dropWhile (t : List Char) : ∀ c ∈ (t.dropWhile isBlank).head?, isBlank c = false := by
  intro c hc
  have hnot := List.head?_dropWhile_not isBlank t
  rw [Option.mem_def.1 hc] at hnot
  simpa using hnot

theorem Trims.eq_trim {s t : List Char} (h : Trims s t) : t = trim s := by
  obtain ⟨⟨front, back, rfl, hblank⟩, hstarts, hends⟩ := h
  have hfront : ∀ c ∈ front, isBlank c = true := fun c hc => hblank c (List.mem_append_left _ hc)
  have hback : ∀ c ∈ back, isBlank c = true := fun c hc => hblank c (List.mem_append_right _ hc)
  rw [trim, List.append_assoc, List.dropWhile_append_of_pos hfront]
  cases t with
  | nil =>
    have hnil : back.dropWhile isBlank = [] := List.dropWhile_eq_nil_iff.2 hback
    rw [List.nil_append, hnil]
    rfl
  | cons c t =>
    rw [List.cons_append, List.dropWhile_cons_of_neg (by simp [hstarts c rfl]), ← List.cons_append,
      List.reverse_append, List.dropWhile_append_of_pos (by simpa using hback),
      dropWhile_of_head (by rw [List.head?_reverse]; exact hends), List.reverse_reverse]

theorem trims_trim (s : List Char) : Trims s (trim s) := by
  have hfront : s = s.takeWhile isBlank ++ s.dropWhile isBlank :=
    List.takeWhile_append_dropWhile.symm
  have hback : s.dropWhile isBlank =
      trim s ++ ((s.dropWhile isBlank).reverse.takeWhile isBlank).reverse := by
    rw [trim, ← List.reverse_append, List.takeWhile_append_dropWhile, List.reverse_reverse]
  refine ⟨⟨s.takeWhile isBlank, ((s.dropWhile isBlank).reverse.takeWhile isBlank).reverse, ?_, ?_⟩,
    ?_, ?_⟩
  · rw [List.append_assoc, ← hback]
    exact hfront
  · intro c hc
    rcases List.mem_append.1 hc with hc | hc
    · exact List.mem_takeWhile_imp hc
    · exact List.mem_takeWhile_imp (List.mem_reverse.1 hc)
  · intro c hc
    apply head_dropWhile s c
    rw [hback]
    exact List.mem_head?_append_of_mem_head? hc
  · intro c hc
    rw [trim, List.getLast?_reverse] at hc
    exact head_dropWhile _ c hc

/-- `trim` leaves what stands between the blanks at the ends, and there is no other such text. -/
theorem trims_iff {s t : List Char} : Trims s t ↔ t = trim s := by
  constructor
  · exact Trims.eq_trim
  · rintro rfl
    exact trims_trim s

/-! ## Lower case -/

/-- The lower case of a character.  Outside of ASCII it has no character of ASCII in it, but for
the dotted I and the Kelvin sign. -/
inductive LowerCase : Char → List Char → Prop
  | ascii {c} : c.toNat < 128 → LowerCase c [c.toLower]
  | other {c part} : 128 ≤ c.toNat → part ≠ [] → (∀ x ∈ part, 128 ≤ x.toNat) → LowerCase c part
  | dottedI : LowerCase '\u0130' ['i', '\u0307']
  | kelvin : LowerCase '\u212a' ['k']

/-- Lowering a text puts the lower case of each of its characters together.  What it is may depend
on the characters around it. -/
def Lowering (lower : List Char → List Char) : Prop :=
  ∀ s, ∃ parts, List.Forall₂ LowerCase s parts ∧ lower s = parts.flatten

/-- A character that is no lower case of a character outside of ASCII. -/
def Plain (x : Char) : Prop := x.toNat < 128 ∧ x ≠ 'i' ∧ x ≠ 'k'

instance (x : Char) : Decidable (Plain x) :=
  inferInstanceAs (Decidable (x.toNat < 128 ∧ x ≠ 'i' ∧ x ≠ 'k'))

def PlainWord (w : List Char) : Prop := ∀ x ∈ w, Plain x

instance (w : List Char) : Decidable (PlainWord w) := List.decidableBAll Plain w

theorem toLower_of_le {c : Char} (h : 128 ≤ c.toNat) : c.toLower = c := by
  have hnot : ¬ (c.val ≥ 'A'.val ∧ c.val ≤ 'Z'.val) := by
    rintro ⟨-, hle⟩
    have hZ : c.toNat ≤ 90 := UInt32.le_iff_toNat_le.1 hle
    omega
  exact dif_neg hnot

theorem LowerCase.not_ascii {c : Char} {part : List Char} (h : LowerCase c part)
    (hc : 128 ≤ c.toNat) : ∃ x ∈ part, ¬ Plain x := by
  cases h with
  | ascii hlt => omega
  | @other _ part _ hne hpart =>
    obtain ⟨x, hx⟩ := List.exists_mem_of_ne_nil part hne
    refine ⟨x, hx, fun hplain => ?_⟩
    have := hpart x hx
    have := hplain.1
    omega
  | dottedI => exact ⟨'i', List.mem_cons_self, fun hplain => hplain.2.1 rfl⟩
  | kelvin => exact ⟨'k', List.mem_cons_self, fun hplain => hplain.2.2 rfl⟩

theorem LowerCase.eq_of_ascii {c : Char} {part : List Char} (h : LowerCase c part)
    (hc : c.toNat < 128) : part = [c.toLower] := by
  cases h with
  | ascii => rfl
  | other hle => omega
  | dottedI => exact absurd hc (by decide)
  | kelvin => exact absurd hc (by decide)

/-- Two ways to lower a text agree on whether it is a word of plain characters. -/
theorem flatten_eq_iff {s : List Char} {parts : List (List Char)}
    (h : List.Forall₂ LowerCase s parts) {w : List Char} (hw : PlainWord w) :
    parts.flatten = w ↔ s.map Char.toLower = w := by
  induction h generalizing w with
  | nil => rfl
  | @cons c part s parts hc _ ih =>
    rw [List.flatten_cons, List.map_cons]
    by_cases hascii : c.toNat < 128
    · rw [hc.eq_of_ascii hascii, List.singleton_append]
      cases w with
      | nil => simp
      | cons x w => rw [List.cons.injEq, List.cons.injEq, ih fun y hy => hw y (.tail _ hy)]
    · -- neither way leaves a plain word of such a character
      obtain ⟨x, hx, hplain⟩ := hc.not_ascii (Nat.le_of_not_lt hascii)
      rw [toLower_of_le (Nat.le_of_not_lt hascii)]
      constructor
      · rintro rfl
        exact absurd (hw x (List.mem_append_left _ hx)) hplain
      · rintro rfl
        exact absurd (hw c List.mem_cons_self).1 hascii

theorem Lowering.eq_iff {lower : List Char → List Char} (h : Lowering lower) {s w : List Char}
    (hw : PlainWord w) : lower s = w ↔ s.map Char.toLower = w := by
  obtain ⟨parts, hparts, hlower⟩ := h s
  rw [hlower]
  exact flatten_eq_iff hparts hw

/-- Lowering the letters A to Z alone follows the rules as far as they are needed. -/
theorem lowering_map_toLower : Lowering (List.map Char.toLower) := by
  intro s
  refine ⟨s.map fun c => [c.toLower], ?_, ?_⟩
  · rw [List.forall₂_map_right_iff, List.forall₂_same]
    intro c _
    by_cases hascii : c.toNat < 128
    · exact .ascii hascii
    · have hle := Nat.le_of_not_lt hascii
      rw [toLower_of_le hle]
      exact .other hle (List.cons_ne_nil _ _) (by simpa using hle)
  · induction s with
    | nil => rfl
    | cons c s ih =>
      rw [List.map_cons, List.map_cons, List.flatten_cons, ← ih, List.singleton_append]

end ReturnHints.Text
