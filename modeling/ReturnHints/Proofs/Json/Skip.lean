import ReturnHints.Proofs.Json.Number

/-!
# Values are skipped to their end

A member that is no field may have any value: numbers of any size, halves of pairs in its strings,
brackets as deep as they like.  Whatever it is, it is skipped exactly to its end:

    SkipsIn skip value : skip (ws ++ value ++ rest) = .ok rest, if rest can follow a value
    ValueText value → SkipsIn skip value                                          (skipsIn_skip)

The functions that read lists and objects are told how to read an item or a member.  So what they
do with a whole list or object follows from what they do with each part (`items_of_skipsIn`,
`runOf_braces`).
-/

namespace ReturnHints.Json

variable {value text ws rest : List Char} {n : Nat}

/-- The value is skipped, whatever stands around it. -/
def SkipsIn (skip : Skipper) (value : List Char) : Prop :=
  ∀ ⦃ws rest : List Char⦄, Blank ws → Follows rest → skip (ws ++ value ++ rest) = .ok rest

/-! ## Strings -/

theorem skipString_plain {c : Char} (hquote : c ≠ '"') (hslash : c ≠ '\\') (hlow : ¬ c.toNat < 0x20)
    (rest : List Char) : skipString (c :: rest) = skipString rest := by
  rw [skipString]
  · simp [hlow]
  all_goals simp_all

theorem skipString_short {e x : Char} (h : plainEscape? e = some x) (rest : List Char) :
    skipString ('\\' :: e :: rest) = skipString rest := by
  have hu := ne_u_of_plainEscape? h
  rw [skipString]
  · simp [h]
  all_goals simp_all

theorem skipString_unit {a b c d : Char} (h : (hex4? a b c d).isSome) (rest : List Char) :
    skipString ('\\' :: 'u' :: a :: b :: c :: d :: rest) = skipString rest := by
  rw [skipString, if_pos h]

theorem skipString_of_stringText {body : List Char} (h : StringText body) (rest : List Char) :
    skipString (body ++ '"' :: rest) = .ok rest := by
  induction h with
  | nil => rfl
  | plain hquote hslash hlow _ ih =>
    rw [List.cons_append, skipString_plain hquote hslash (by omega), ih]
  | short hescape _ ih =>
    obtain ⟨x, hx⟩ := Option.isSome_iff_exists.1 hescape
    rw [List.cons_append, List.cons_append, skipString_short hx, ih]
  | unit hhex _ ih =>
    simp only [List.cons_append]
    rw [skipString_unit hhex, ih]

/-! ## Numbers -/

theorem Digits.exists_cons {ds : List Char} (h : Digits ds) :
    ∃ d ds', ds = d :: ds' ∧ isDigit d = true := by
  obtain ⟨d, ds', rfl⟩ := List.exists_cons_of_ne_nil h.1
  exact ⟨d, ds', rfl, h.2 d List.mem_cons_self⟩

theorem skipExponent_of_digits {sign ds : List Char} (hsign : sign ∈ [[], ['+'], ['-']])
    (hds : Digits ds) (hrest : Follows rest) : skipExponent (sign ++ ds ++ rest) = .ok rest := by
  obtain ⟨d, ds', rfl, hd⟩ := hds.exists_cons
  have hafter : afterDigits (d :: (ds' ++ rest)) = rest := afterDigits_append hds.2 hrest.noDigit
  simp only [List.mem_cons, List.not_mem_nil, or_false] at hsign
  rcases hsign with rfl | rfl | rfl
  · have hplus : d ≠ '+' := by
      rintro rfl
      cases hd
    have hminus := (not_space_of_isDigit hd).2
    simp [skipExponent, hplus, hminus, hd, hafter]
  · simp [skipExponent, hd, hafter]
  · simp [skipExponent, hd, hafter]

/-- An exponent is skipped behind its letter; without one, the text goes on with no part of a
number. -/
theorem ExponentText.skip_cases {exponent : List Char} (h : ExponentText exponent)
    (hrest : Follows rest) :
    (∃ e tail, exponent ++ rest = e :: tail ∧ (e = 'e' ∨ e = 'E') ∧ skipExponent tail = .ok rest) ∨
    exponent ++ rest = rest ∧ ∀ c ∈ rest.head?, c ≠ '.' ∧ c ≠ 'e' ∧ c ≠ 'E' := by
  cases h with
  | absent => exact .inr ⟨rfl, fun c hc => (hrest.not_number c hc).2⟩
  | @digits e sign ds he hsign hds =>
    exact .inl ⟨e, _, rfl, by simpa using he, skipExponent_of_digits hsign hds hrest⟩

theorem ExponentText.noDigit {exponent : List Char} (h : ExponentText exponent)
    (hrest : Follows rest) : NoDigit (exponent ++ rest) := by
  rcases h.skip_cases hrest with ⟨e, tail, heq, rfl | rfl, _⟩ | ⟨heq, _⟩
  · rw [heq]
    rfl
  · rw [heq]
    rfl
  · rw [heq]
    exact hrest.noDigit

theorem FractionText.noDigit {fraction : List Char} (h : FractionText fraction)
    (hrest : NoDigit rest) : NoDigit (fraction ++ rest) := by
  cases h with
  | absent => exact hrest
  | digits _ => rfl

theorem skipNumber_of_parts {whole fraction exponent : List Char} (hwhole : WholeText whole)
    (hfraction : FractionText fraction) (hexponent : ExponentText exponent)
    (hrest : Follows rest) :
    skipNumber (whole ++ (fraction ++ (exponent ++ rest))) = .ok rest := by
  have hnext := hexponent.noDigit hrest
  obtain ⟨c, after, hshape, hlead, hafter⟩ := hwhole.exists_cons (hfraction.noDigit hnext)
  rw [hshape]
  simp only [skipNumber, hlead, hafter, Bool.false_eq_true, if_false]
  cases hfraction with
  | absent =>
    rw [List.nil_append]
    rcases hexponent.skip_cases hrest with ⟨e, tail, heq, rfl | rfl, hskip⟩ | ⟨heq, hhead⟩
    · simpa only [heq] using hskip
    · simpa only [heq] using hskip
    · rw [heq]
      cases rest with
      | nil => rfl
      | cons d rest =>
        obtain ⟨hpoint, he, hE⟩ := hhead d rfl
        simp [hpoint, he, hE]
  | @digits ds hds =>
    have hdrop := afterDigits_append hds.2 hnext
    obtain ⟨d, ds', rfl, hd⟩ := hds.exists_cons
    rw [List.cons_append] at hdrop
    simp only [List.cons_append, List.head?_cons, Option.any_some, hd, if_true, hdrop]
    rcases hexponent.skip_cases hrest with ⟨e, tail, heq, rfl | rfl, hskip⟩ | ⟨heq, hhead⟩
    · simpa only [heq] using hskip
    · simpa only [heq] using hskip
    · rw [heq]
      cases rest with
      | nil => rfl
      | cons d rest =>
        obtain ⟨_, he, hE⟩ := hhead d rfl
        simp [he, hE]

theorem skipScalar_digit {c : Char} (h : isDigit c = true) (rest : List Char) :
    skipScalar c rest = skipNumber (c :: rest) := by
  unfold skipScalar
  split
  · cases h
  · cases h
  · cases h
  · cases h
  · cases h
  · rw [if_pos h]

/-- A number is skipped from its first character on, be it the sign or a digit. -/
theorem NumberText.exists_skipScalar (h : NumberText value) :
    ∃ c tail, value = c :: tail ∧ (c = '-' ∨ isDigit c = true) ∧
      ∀ rest, Follows rest → skipScalar c (tail ++ rest) = .ok rest := by
  obtain ⟨hsign, hwhole, hfraction, hexponent⟩ := h
  next sign whole fraction exponent =>
  have hskip : ∀ rest, Follows rest →
      skipNumber (whole ++ fraction ++ exponent ++ rest) = .ok rest := by
    intro rest hrest
    rw [List.append_assoc, List.append_assoc]
    exact skipNumber_of_parts hwhole hfraction hexponent hrest
  rcases (by simpa using hsign : sign = [] ∨ sign = ['-']) with rfl | rfl
  · obtain ⟨c, tail, rfl, hc⟩ := hwhole.head
    refine ⟨c, tail ++ fraction ++ exponent, by simp, .inr hc, fun rest hrest => ?_⟩
    rw [skipScalar_digit hc]
    exact hskip rest hrest
  · exact ⟨'-', whole ++ fraction ++ exponent, by simp, .inl rfl, hskip⟩

/-! ## Where a value starts -/

/-- A value starts with neither a blank nor a closing bracket. -/
theorem ValueText.head (h : ValueText value) :
    ∃ c tail, value = c :: tail ∧ isSpace c = false ∧ c ≠ ']' := by
  cases h with
  | null => exact ⟨_, _, rfl, by decide, by decide⟩
  | bool b => cases b <;> exact ⟨_, _, rfl, by decide, by decide⟩
  | number hnumber =>
    obtain ⟨c, tail, rfl, hc⟩ := hnumber.head
    refine ⟨c, tail, rfl, ?_⟩
    rcases hc with rfl | hdigit
    · decide
    · refine ⟨(not_space_of_isDigit hdigit).1, ?_⟩
      rintro rfl
      cases hdigit
  | string _ => exact ⟨_, _, rfl, by decide, by decide⟩
  | emptyList _ => exact ⟨_, _, rfl, by decide, by decide⟩
  | list _ => exact ⟨_, _, rfl, by decide, by decide⟩
  | emptyObject _ => exact ⟨_, _, rfl, by decide, by decide⟩
  | object _ => exact ⟨_, _, rfl, by decide, by decide⟩

/-! ## Items one after the other -/

section

variable {item : Skipper} {values : List (List Char)}

theorem moreItems_blank_close (item : Skipper) (n : Nat) (hws : Blank ws) (rest : List Char) :
    moreItems item (n + 1) (ws ++ ']' :: rest) = .ok rest := by
  rw [moreItems, skipSpaces_blank hws (by decide)]
  rfl

theorem moreItems_blank_comma (item : Skipper) (n : Nat) (hws : Blank ws) (rest : List Char) :
    moreItems item (n + 1) (ws ++ ',' :: rest) = item rest >>= moreItems item n := by
  rw [moreItems, skipSpaces_blank hws (by decide)]
  rfl

theorem items_blank_value (item : Skipper) (hws : Blank ws) (hvalue : ValueText value)
    (rest : List Char) :
    items item (ws ++ value ++ rest) =
      item (value ++ rest) >>= fun rest => moreItems item (rest.length + 1) rest := by
  obtain ⟨c, tail, rfl, hspace, hclose⟩ := hvalue.head
  rw [items, List.append_assoc, List.cons_append, skipSpaces_blank hws hspace]
  split
  · next heq => cases heq
  · next heq => exact absurd (List.cons.inj heq).1 hclose
  · rfl

/-- The items behind the first one are skipped if each of them is.  A bound on the steps is enough
if it exceeds their number. -/
theorem moreItems_of_skipsIn (h : ItemTexts values text)
    (hitem : ∀ value ∈ values, SkipsIn item value) (hws : Blank ws) (hn : values.length < n)
    (rest : List Char) : moreItems item n (ws ++ ',' :: (text ++ ']' :: rest)) = .ok rest := by
  induction h generalizing n ws with
  | @last ws₁ value ws₂ hws₁ _ hws₂ =>
    rw [List.length_singleton] at hn
    obtain ⟨n, rfl⟩ : ∃ k, n = k + 2 := ⟨n - 2, by omega⟩
    have hskip := hitem value List.mem_cons_self hws₁ ((follows_bracket rest).blank hws₂)
    rw [moreItems_blank_comma item _ hws, List.append_assoc (ws₁ ++ value), hskip]
    exact moreItems_blank_close item n hws₂ rest
  | @more ws₁ value ws₂ values more hws₁ _ hws₂ _ ih =>
    rw [List.length_cons] at hn
    obtain ⟨n, rfl⟩ : ∃ k, n = k + 1 := ⟨n - 1, by omega⟩
    obtain ⟨hfirst, hmore⟩ := List.forall_mem_cons.1 hitem
    have hskip := hfirst hws₁ ((follows_comma (more ++ ']' :: rest)).blank hws₂)
    rw [moreItems_blank_comma item n hws, List.append_assoc (ws₁ ++ value ++ ws₂),
      List.cons_append, List.append_assoc (ws₁ ++ value), hskip]
    exact ih hmore hws₂ (by omega)

theorem ItemTexts.valueText (h : ItemTexts values text) : ∀ value ∈ values, ValueText value := by
  induction h with
  | last _ hvalue _ => exact List.forall_mem_singleton.2 hvalue
  | more _ hvalue _ _ ih => exact List.forall_mem_cons.2 ⟨hvalue, ih⟩

theorem ItemTexts.length_le (h : ItemTexts values text) :
    values.length ≤ text.length ∧ ∀ value ∈ values, value.length ≤ text.length := by
  induction h with
  | @last ws₁ value ws₂ _ hvalue _ =>
    obtain ⟨c, tail, rfl, _, _⟩ := hvalue.head
    simp only [List.length_append, List.length_cons, List.length_nil, List.mem_singleton,
      forall_eq]
    omega
  | @more ws₁ value ws₂ values more _ _ _ _ ih =>
    obtain ⟨hcount, hlength⟩ := ih
    simp only [List.length_append, List.length_cons]
    refine ⟨by omega, List.forall_mem_cons.2 ⟨by omega, fun v hv => ?_⟩⟩
    have := hlength v hv
    omega

/-- Between its brackets a list is skipped if each item is. -/
theorem items_of_skipsIn (h : ItemTexts values text)
    (hitem : ∀ value ∈ values, SkipsIn item value) (rest : List Char) :
    items item (text ++ ']' :: rest) = .ok rest := by
  cases h with
  | @last ws₁ value ws₂ hws₁ hvalue hws₂ =>
    have hskip := hitem value List.mem_cons_self blank_nil ((follows_bracket rest).blank hws₂)
    rw [List.append_assoc, items_blank_value item hws₁ hvalue, ← List.nil_append value, hskip]
    exact moreItems_blank_close item _ hws₂ rest
  | @more ws₁ value ws₂ values more hws₁ hvalue hws₂ hvalues =>
    obtain ⟨hfirst, hmore⟩ := List.forall_mem_cons.1 hitem
    have hskip := hfirst blank_nil ((follows_comma (more ++ ']' :: rest)).blank hws₂)
    have hlength := hvalues.length_le.1
    rw [List.append_assoc (ws₁ ++ value ++ ws₂), List.cons_append,
      List.append_assoc (ws₁ ++ value), items_blank_value item hws₁ hvalue, ← List.nil_append value,
      hskip]
    refine moreItems_of_skipsIn hvalues hmore hws₂ ?_ rest
    simp only [List.length_append, List.length_cons]
    omega

end

/-! ## Any value -/

theorem skipsIn_scalar {c : Char} {tail : List Char} (hc : isSpace c = false) (hlist : c ≠ '[')
    (hobject : c ≠ '{') (h : ∀ rest, Follows rest → skipScalar c (tail ++ rest) = .ok rest) :
    SkipsIn (skipWithin (n + 1)) (c :: tail) := by
  intro ws rest hws hrest
  rw [List.append_assoc, List.cons_append, skipWithin, skipSpaces_blank hws hc]
  split
  · next heq => cases heq
  · next heq => exact absurd (List.cons.inj heq).1 hlist
  · next heq => exact absurd (List.cons.inj heq).1 hobject
  · next heq =>
    obtain ⟨rfl, rfl⟩ := List.cons.inj heq
    exact h rest hrest

/-- A list is skipped if each item is. -/
theorem skipsIn_brackets {values : List (List Char)} (h : BracketsText values value)
    (hitem : ∀ item ∈ values, SkipsIn (skipWithin n) item) :
    SkipsIn (skipWithin (n + 1)) value := by
  intro ws rest hws _
  have hopen : ∀ inner, skipWithin (n + 1) (ws ++ '[' :: inner) = items (skipWithin n) inner := by
    intro inner
    rw [skipWithin, skipSpaces_blank hws (by decide)]
    rfl
  cases h with
  | empty hinside =>
    rw [List.append_assoc, List.cons_append, hopen, List.append_assoc, List.singleton_append, items,
      skipSpaces_blank hinside (by decide)]
    rfl
  | items hvalues =>
    rw [List.append_assoc, List.cons_append, hopen, List.append_assoc]
    exact items_of_skipsIn hvalues hitem rest

/-- Skips a member, behind the quote of its key. -/
def skipMember (n : Nat) : Unit → Reader Unit := fun _ cs => do
  let rest ← skipWithin n (← colon (← skipString cs))
  return ((), rest)

theorem readsMember_skipMember {m : Member} (hkey : StringText m.key)
    (hvalue : SkipsIn (skipWithin n) m.value) : ReadsMember (skipMember n) () m () := by
  rintro _ rest ⟨hws, hws', hrest⟩
  simp only [skipMember, skipString_of_stringText hkey, bind, Except.bind, colon_blank hws,
    hvalue hws' hrest]
  rfl

theorem readsMembers_skipMember {ms : List Member}
    (h : ∀ m ∈ ms, ReadsMember (skipMember n) () m ()) : ReadsMembers (skipMember n) () ms () := by
  induction ms with
  | nil => exact .nil
  | cons m ms ih =>
    obtain ⟨hm, hms⟩ := List.forall_mem_cons.1 h
    exact .cons hm (ih hms)

/-- An object is skipped if each value in it is. -/
theorem skipsIn_braces {ms : List Member} (h : BracesText ms value)
    (hvalue : ∀ m ∈ ms, SkipsIn (skipWithin n) m.value) : SkipsIn (skipWithin (n + 1)) value := by
  intro ws rest hws _
  obtain ⟨inner, rfl, hrun⟩ := runOf_braces (skipMember n) () h rest
  have hopen : skipWithin (n + 1) (ws ++ '{' :: (inner ++ rest)) =
      (members (skipMember n) () (inner ++ rest)).map (·.2) := by
    rw [skipWithin, skipSpaces_blank hws (by decide)]
    rfl
  have hread : ReadsMembers (skipMember n) () ms () :=
    readsMembers_skipMember fun m hm => readsMember_skipMember (h.correct m hm).key (hvalue m hm)
  rw [List.append_assoc, List.cons_append, hopen, hrun.reads hread]
  rfl

theorem MembersText.length_le : ∀ {ms : List Member} {text : List Char}, MembersText ms text →
    ∀ m ∈ ms, m.value.length ≤ text.length
  | _, _, .last hm => by
    obtain ⟨⟩ := hm
    simp only [List.length_append, List.length_cons, List.mem_singleton, forall_eq]
    omega
  | _, _, .more hm hms => by
    have hlength := hms.length_le
    obtain ⟨⟩ := hm
    simp only [List.length_append, List.length_cons]
    refine List.forall_mem_cons.2 ⟨by omega, fun m hm => ?_⟩
    have := hlength m hm
    omega

/-- A bound on the brackets is enough if it is not below the length of the value. -/
theorem skipsIn_skipWithin (n : Nat) :
    ∀ {value : List Char}, ValueText value → value.length ≤ n → SkipsIn (skipWithin n) value := by
  induction n with
  | zero =>
    intro value hvalue hn
    obtain ⟨c, tail, rfl, _, _⟩ := hvalue.head
    cases hn
  | succ n ih =>
    intro value hvalue hn
    cases hvalue with
    | null => exact skipsIn_scalar (by decide) (by decide) (by decide) fun _ _ => rfl
    | bool b =>
      cases b with
      | true => exact skipsIn_scalar (by decide) (by decide) (by decide) fun _ _ => rfl
      | false => exact skipsIn_scalar (by decide) (by decide) (by decide) fun _ _ => rfl
    | number hnumber =>
      obtain ⟨c, tail, rfl, hc, hskip⟩ := hnumber.exists_skipScalar
      rcases hc with rfl | hdigit
      · exact skipsIn_scalar (by decide) (by decide) (by decide) hskip
      · have hlist : c ≠ '[' := by
          rintro rfl
          cases hdigit
        have hobject : c ≠ '{' := by
          rintro rfl
          cases hdigit
        exact skipsIn_scalar (not_space_of_isDigit hdigit).1 hlist hobject hskip
    | string hbody =>
      refine skipsIn_scalar (by decide) (by decide) (by decide) fun rest _ => ?_
      rw [List.append_assoc]
      exact skipString_of_stringText hbody rest
    | emptyList hinside =>
      refine skipsIn_brackets (.empty hinside) fun item hitem => ?_
      cases hitem
    | list hitems =>
      obtain ⟨values, hvalues⟩ := hitems.exists_itemTexts
      simp only [List.length_cons, List.length_append] at hn
      refine skipsIn_brackets (.items hvalues) fun item hitem => ?_
      have := hvalues.length_le.2 item hitem
      exact ih (hvalues.valueText item hitem) (by omega)
    | emptyObject hinside =>
      refine skipsIn_braces (.empty hinside) fun m hm => ?_
      cases hm
    | object hmembers =>
      simp only [List.length_cons, List.length_append] at hn
      refine skipsIn_braces (.members hmembers) fun m hm => ?_
      have := hmembers.length_le m hm
      exact ih (hmembers.correct m hm).value (by omega)

/-- Any value is skipped to its end. -/
theorem skipsIn_skip (h : ValueText value) : SkipsIn skip value := by
  intro ws rest hws hrest
  refine skipsIn_skipWithin _ h ?_ hws hrest
  simp only [List.length_append]
  omega

end ReturnHints.Json
