import ReturnHints.Proofs.Json.Object

/-!
# Whole numbers

A number ends where no digit follows.  The digits that are written for a whole number are read as
the number again, wherever they stand:

    WholeText (Decimal.digitChars n)                                          (wholeText_digitChars)
    n < wordLimit → ReadsIn readWord32 (writeNatural n) n                           (readsIn_word32)
-/

namespace ReturnHints.Json

variable {rest : List Char}

/-! ## Where digits end -/

theorem Follows.not_number (h : Follows rest) :
    ∀ c ∈ rest.head?, isDigit c = false ∧ c ≠ '.' ∧ c ≠ 'e' ∧ c ≠ 'E' := by
  intro c hc
  rcases h c hc with hspace | rfl | rfl | rfl
  · rcases isSpace_iff.1 hspace with rfl | rfl | rfl | rfl <;> decide
  all_goals decide

/-- The text does not start with a digit. -/
def NoDigit (cs : List Char) : Prop := cs.head?.any isDigit = false

theorem Follows.noDigit (h : Follows rest) : NoDigit rest := by
  cases rest with
  | nil => rfl
  | cons c rest => exact (h.not_number c rfl).1

theorem leadingDigits_append {ds : List Char} (hds : ∀ d ∈ ds, isDigit d = true)
    (h : NoDigit rest) : leadingDigits (ds ++ rest) = ds.map digitValue := by
  rw [leadingDigits, List.takeWhile_append_of_pos hds]
  cases rest with
  | nil => rw [List.takeWhile_nil, List.append_nil]
  | cons c rest =>
    have hc : isDigit c = false := h
    rw [List.takeWhile_cons_of_neg (by simp [hc]), List.append_nil]

theorem afterDigits_append {ds : List Char} (hds : ∀ d ∈ ds, isDigit d = true)
    (h : NoDigit rest) : afterDigits (ds ++ rest) = rest := by
  rw [afterDigits, List.dropWhile_append_of_pos hds]
  cases rest with
  | nil => rfl
  | cons c rest =>
    have hc : isDigit c = false := h
    rw [List.dropWhile_cons_of_neg (by simp [hc])]

/-- A number may start with the first digit of its whole part, which ends with the digits. -/
theorem WholeText.exists_cons {whole : List Char} (h : WholeText whole) (hrest : NoDigit rest) :
    ∃ c after, whole ++ rest = c :: after ∧
      (!isDigit c || (c == '0' && after.head?.any isDigit)) = false ∧
      afterDigits (c :: after) = rest := by
  cases h with
  | zero =>
    have hdigits : ∀ d ∈ ['0'], isDigit d = true := List.forall_mem_singleton.2 rfl
    have hhead : rest.head?.any isDigit = false := hrest
    refine ⟨'0', rest, rfl, ?_, afterDigits_append hdigits hrest⟩
    rw [hhead]
    rfl
  | @digits d ds hzero hdigits =>
    refine ⟨d, ds ++ rest, rfl, ?_, afterDigits_append hdigits.2 hrest⟩
    simp [hdigits.2 d List.mem_cons_self, hzero]

/-! ## Digits of a number -/

theorem digitChars_eq (n : Nat) :
    Decimal.digitChars n =
      if n < 10 then [n.digitChar] else Decimal.digitChars (n / 10) ++ [(n % 10).digitChar] := by
  simp only [Decimal.digitChars, Nat.toString_eq_repr, Nat.toList_repr]
  exact Nat.toDigits_eq_if (by decide)

theorem isDigit_digitChar : ∀ d < 10, isDigit d.digitChar = true ∧ digitValue d.digitChar = d := by
  decide

theorem isDigit_of_mem_digitChars {n : Nat} : ∀ c ∈ Decimal.digitChars n, isDigit c = true := by
  induction n using Nat.strongRecOn with
  | ind n ih =>
    intro c hc
    rw [digitChars_eq] at hc
    split at hc
    · next h =>
      rw [List.mem_singleton.1 hc]
      exact (isDigit_digitChar n h).1
    · next h =>
      rcases List.mem_append.1 hc with hc | hc
      · exact ih (n / 10) (by omega) c hc
      · rw [List.mem_singleton.1 hc]
        exact (isDigit_digitChar (n % 10) (by omega)).1

/-- The digits of a number have its value. -/
theorem ofDigits_digitChars (n : Nat) :
    Decimal.ofDigits ((Decimal.digitChars n).map digitValue) = n := by
  induction n using Nat.strongRecOn with
  | ind n ih =>
    rw [digitChars_eq]
    split
    · next h =>
      rw [List.map_singleton, (isDigit_digitChar n h).2]
      simp [Decimal.ofDigits]
    · next h =>
      have hrest := ih (n / 10) (by omega)
      unfold Decimal.ofDigits at hrest ⊢
      rw [List.map_append, List.foldl_append, hrest, List.map_singleton,
        (isDigit_digitChar (n % 10) (by omega)).2, List.foldl_cons, List.foldl_nil]
      omega

/-- A number starts with a digit, and only the number zero with the digit zero. -/
theorem digitChars_eq_cons (n : Nat) :
    ∃ c cs, Decimal.digitChars n = c :: cs ∧ isDigit c = true ∧ (c = '0' → n = 0) := by
  induction n using Nat.strongRecOn with
  | ind n ih =>
    rw [digitChars_eq]
    split
    · next h => exact ⟨_, [], rfl, (isDigit_digitChar n h).1, Nat.digitChar_eq_zero.1⟩
    · next h =>
      obtain ⟨c, cs, hcs, hdigit, hzero⟩ := ih (n / 10) (by omega)
      rw [hcs]
      refine ⟨c, _, rfl, hdigit, fun hc => ?_⟩
      have := hzero hc
      omega

theorem le_foldl_digits (ds : List Nat) (m : Nat) : m ≤ ds.foldl (fun n d => n * 10 + d) m := by
  induction ds generalizing m with
  | nil => exact Nat.le_refl m
  | cons d ds ih =>
    have := ih (m * 10 + d)
    rw [List.foldl_cons]
    omega

/-- A significand has room for all digits of a number that is small enough. -/
theorem absorb_eq (significand : Nat) (ds : List Nat)
    (h : ds.foldl (fun n d => n * 10 + d) significand ≤ Decimal.maxSignificand) :
    Decimal.absorb significand ds =
      (ds.foldl (fun n d => n * 10 + d) significand, ds.length) := by
  induction ds generalizing significand with
  | nil => rfl
  | cons d ds ih =>
    rw [List.foldl_cons] at h ⊢
    have hroom : significand * 10 + d ≤ Decimal.maxSignificand :=
      Nat.le_trans (le_foldl_digits ds _) h
    rw [Decimal.absorb, if_pos hroom, ih _ h, List.length_cons]

theorem wholeText_digitChars (n : Nat) : WholeText (Decimal.digitChars n) := by
  obtain ⟨c, cs, hcs, _, hzero⟩ := digitChars_eq_cons n
  by_cases hc : c = '0'
  · have h0 : Decimal.digitChars 0 = ['0'] := digitChars_eq 0
    rw [hzero hc, h0]
    exact .zero
  · have hdigits : ∀ d ∈ Decimal.digitChars n, isDigit d = true := isDigit_of_mem_digitChars
    rw [hcs] at hdigits ⊢
    exact .digits hc ⟨List.cons_ne_nil c cs, hdigits⟩

/-! ## Reading -/

/-- A whole number is read as it is written. -/
theorem number_digitChars {n : Nat} (hn : n ≤ Decimal.maxSignificand) (h : Follows rest) :
    number false (Decimal.digitChars n ++ rest) = .ok (.natural n, rest) := by
  have hvalue := ofDigits_digitChars n
  unfold Decimal.ofDigits at hvalue
  have habsorb := absorb_eq 0 ((Decimal.digitChars n).map digitValue) (by rw [hvalue]; exact hn)
  rw [hvalue] at habsorb
  have hdigits := leadingDigits_append (isDigit_of_mem_digitChars (n := n)) h.noDigit
  obtain ⟨c, after, hshape, hlead, hafter⟩ := (wholeText_digitChars n).exists_cons h.noDigit
  rw [hshape] at hdigits ⊢
  simp only [number, hlead, hdigits, habsorb, hafter, Nat.sub_self, Bool.false_eq_true, if_false]
  -- what follows is no fraction and no exponent
  cases rest with
  | nil => rfl
  | cons d rest =>
    obtain ⟨_, hpoint, he, hE⟩ := h.not_number d rfl
    split
    · next heq => exact absurd (List.cons.inj heq).1 hpoint
    · next heq => exact absurd (List.cons.inj heq).1 he
    · next heq => exact absurd (List.cons.inj heq).1 hE
    · rfl

theorem readsIn_word32 {n : Nat} (hn : n < wordLimit) : ReadsIn readWord32 (writeNatural n) n := by
  intro ws rest hws hrest
  have hmax : wordLimit ≤ Decimal.maxSignificand := by decide
  have hnumber := number_digitChars (by omega : n ≤ Decimal.maxSignificand) hrest
  obtain ⟨c, cs, hcs, hdigit, _⟩ := digitChars_eq_cons n
  obtain ⟨hspace, hminus⟩ := not_space_of_isDigit hdigit
  rw [hcs, List.cons_append] at hnumber
  rw [writeNatural, hcs, List.append_assoc, List.cons_append, readWord32,
    skipSpaces_blank hws hspace]
  split
  · next heq => cases heq
  · next heq => exact absurd (List.cons.inj heq).1 hminus
  · next heq =>
    obtain ⟨rfl, rfl⟩ := List.cons.inj heq
    rw [if_pos hdigit, hnumber]
    show asWord32 (.natural n, rest) = _
    rw [asWord32, if_pos hn]

end ReturnHints.Json
