import ReturnHints.Proofs.Json.Strict
import ReturnHints.Proofs.Text.Word
import ReturnHints.Wire.Options

/-!
# What a switch is read from

A switch is read from a boolean, or from a string with one of a few words in it, whatever lower
case is and wherever the value stands.  All other values are refused, whatever is in them:

    SwitchText lower value b    the value stands for the boolean b
    switch (ws ++ value ++ rest) = .ok (b, tail) ↔ tail = rest ∧ SwitchText lower value b
                                                                            (switch_eq_ok_iff)
-/

namespace ReturnHints

open Json

/-! ## Words -/

/-- The words for a boolean. -/
def switchWords (b : Bool) : List String :=
  if b then ["true", "1", "yes", "on"] else ["false", "0", "no", "off"]

/-- The value stands for the boolean `b`: it is one, or a string with a word for one in it. -/
inductive SwitchText (lower : List Char → List Char) : List Char → Bool → Prop
  | literal (b : Bool) : SwitchText lower (writeBool b) b
  | word {body s word b} : Spells body s → Text.Trims s word →
      String.ofList (lower word) ∈ switchWords b → SwitchText lower ('"' :: (body ++ ['"'])) b

theorem switchWord?_eq_some_iff {w : String} {b : Bool} :
    switchWord? w = some b ↔ w ∈ switchWords b := by
  have hdisjoint : ∀ w ∈ switchWords false, w ∉ switchWords true := by decide
  show (if w ∈ switchWords true then some true
    else if w ∈ switchWords false then some false else none) = some b ↔ _
  split
  · next htrue =>
    cases b with
    | true => simp [htrue]
    | false =>
      have hfalse : w ∉ switchWords false := fun h => hdisjoint w h htrue
      simp [hfalse]
  · next htrue =>
    split
    · next hfalse => cases b <;> simp [htrue, hfalse]
    · next hfalse => cases b <;> simp [htrue, hfalse]

theorem plain_of_mem_switchWords : ∀ b, ∀ w ∈ switchWords b, Text.PlainWord w.toList := by
  decide

/-! ## Values that are no switch -/

section numbers

variable {negative : Bool} {significand : Nat} {e : Int} {cs rest : List Char} {found : Found}

def NoSwitch (found : Found) : Prop := asSwitch found = .error .noSwitch

theorem noSwitch_of_float (h : Json.float negative significand e cs = .ok (found, rest)) :
    NoSwitch found := by
  unfold Json.float at h
  split at h
  · cases h
  · cases h
    rfl

theorem noSwitch_of_exponent (h : exponent negative significand e cs = .ok (found, rest)) :
    NoSwitch found := by
  unfold exponent at h
  simp only at h
  split at h
  · cases h
  · split at h
    · exact noSwitch_of_float h
    · cases h

theorem noSwitch_of_fraction (h : fraction negative significand e cs = .ok (found, rest)) :
    NoSwitch found := by
  unfold fraction at h
  split at h
  · cases h
  · split at h
    · simp only at h
      split at h
      · exact noSwitch_of_exponent h
      · exact noSwitch_of_exponent h
      · exact noSwitch_of_float h
    · cases h

theorem noSwitch_of_whole (h : whole negative significand cs = .ok (found, rest)) :
    NoSwitch found := by
  unfold whole at h
  split at h
  · split at h
    · exact noSwitch_of_float h
    · cases h
      rfl
  · cases h
    rfl

theorem noSwitch_of_number (h : number negative cs = .ok (found, rest)) : NoSwitch found := by
  unfold number at h
  split at h
  · cases h
  · split at h
    · cases h
    · simp only at h
      split at h
      · exact noSwitch_of_fraction h
      · exact noSwitch_of_exponent h
      · exact noSwitch_of_exponent h
      · split at h
        · exact noSwitch_of_whole h
        · exact noSwitch_of_float h

end numbers

section

variable {ws rest tail : List Char} {c : Char} {found : Found} {b : Bool} {room : Nat}

/-- A value that is a switch starts as a boolean or a string does. -/
theorem noSwitch_of_value (hws : Blank ws) (hc : isSpace c = false) (hswitch : c ∉ ['t', 'f', '"'])
    (h : value room (ws ++ c :: rest) = .ok (found, tail)) : NoSwitch found := by
  rw [value, skipSpaces_blank hws hc] at h
  split at h
  · cases h
  · split at h
    · cases h
    · obtain ⟨_, _, hfound⟩ := exists_of_map h
      cases hfound
      rfl
  · split at h
    · cases h
    · obtain ⟨_, _, hfound⟩ := exists_of_map h
      cases hfound
      rfl
  · next heq =>
    obtain ⟨rfl, rfl⟩ := List.cons.inj heq
    unfold scalar? at h
    split at h
    · obtain ⟨_, _, hfound⟩ := exists_of_map h
      cases hfound
      rfl
    · exact absurd (by decide) hswitch
    · exact absurd (by decide) hswitch
    · exact absurd (by decide) hswitch
    · exact noSwitch_of_number h
    · split at h
      · have hnumber : number false (c :: rest) = .ok (found, tail) := h
        exact noSwitch_of_number hnumber
      · cases h

/-! ## Values that may be one -/

theorem value_writeBool (hws : Blank ws) :
    value room (ws ++ writeBool b ++ rest) = .ok (.bool b, rest) := by
  cases b with
  | true =>
    rw [List.append_assoc, show writeBool true = 't' :: ['r', 'u', 'e'] from rfl, List.cons_append,
      value, skipSpaces_blank hws (by decide)]
    rfl
  | false =>
    rw [List.append_assoc, show writeBool false = 'f' :: ['a', 'l', 's', 'e'] from rfl,
      List.cons_append, value, skipSpaces_blank hws (by decide)]
    rfl

theorem value_quoted {body : List Char} (hws : Blank ws) :
    value room (ws ++ '"' :: (body ++ ['"']) ++ rest) =
      (string (body ++ '"' :: rest)).map fun (s, rest) => (.text (String.ofList s), rest) := by
  rw [List.append_assoc, List.cons_append, List.append_assoc, List.singleton_append, value,
    skipSpaces_blank hws (by decide)]
  rfl

theorem asSwitch_text_iff {s : String} :
    asSwitch (.text s) = .ok b ↔ switchWord? (Text.settingWord s) = some b := by
  rw [asSwitch]
  cases switchWord? (Text.settingWord s) with
  | none => simp
  | some b' => simp

theorem number_head (h : c = '-' ∨ isDigit c = true) :
    isSpace c = false ∧ c ∉ ['t', 'f', '"'] := by
  rcases h with rfl | hdigit
  · decide
  · refine ⟨(not_space_of_isDigit hdigit).1, fun hmem => ?_⟩
    simp only [List.mem_cons, List.not_mem_nil, or_false] at hmem
    rcases hmem with rfl | rfl | rfl <;> cases hdigit

theorem switch_eq_ok_iff_value {cs : List Char} :
    switch cs = .ok (b, tail) ↔
      ∃ found, value (maxOpen - 1) cs = .ok (found, tail) ∧ asSwitch found = .ok b := by
  rw [switch, bind_eq_ok_iff]
  constructor
  · rintro ⟨⟨found, rest⟩, hvalue, h⟩
    simp only at h
    split at h
    · next b' hb =>
      cases h
      exact ⟨found, hvalue, hb⟩
    · cases h
  · rintro ⟨found, hvalue, h⟩
    refine ⟨(found, tail), hvalue, ?_⟩
    simp only [h]
    rfl

end

variable {lower : List Char → List Char}

theorem head_of_switchText {c : Char} {value : List Char} {b : Bool}
    (h : SwitchText lower (c :: value) b) : c ∈ ['t', 'f', '"'] := by
  generalize hvalue : c :: value = v at h
  cases h with
  | literal b =>
    cases b with
    | true => simp [(List.cons.inj hvalue).1]
    | false => simp [(List.cons.inj hvalue).1]
  | word _ _ _ => simp [(List.cons.inj hvalue).1]

theorem writeBool_inj : ∀ {b b' : Bool}, writeBool b = writeBool b' → b = b' := by
  decide

theorem switchText_writeBool_iff {b b' : Bool} : SwitchText lower (writeBool b) b' ↔ b = b' := by
  constructor
  · intro h
    generalize hvalue : writeBool b = v at h
    cases h with
    | literal b' => exact writeBool_inj hvalue
    | word _ _ _ => cases b <;> cases hvalue
  · rintro rfl
    exact .literal b

theorem switchText_quoted_iff {body : List Char} {b : Bool} :
    SwitchText lower ('"' :: (body ++ ['"'])) b ↔
      ∃ s word, Spells body s ∧ Text.Trims s word ∧ String.ofList (lower word) ∈ switchWords b := by
  constructor
  · intro h
    generalize hvalue : '"' :: (body ++ ['"']) = v at h
    cases h with
    | literal b => cases b <;> cases hvalue
    | @word body' s word _ hspells htrims hmem =>
      obtain rfl : body = body' := List.append_cancel_right (List.cons.inj hvalue).2
      exact ⟨s, word, hspells, htrims, hmem⟩
  · rintro ⟨s, word, hspells, htrims, hmem⟩
    exact .word hspells htrims hmem

/-- A value that starts neither as a boolean nor as a string is no switch. -/
theorem switch_of_other {ws value rest tail : List Char} {c : Char} {b : Bool} (hws : Blank ws)
    (hc : isSpace c = false) (hswitch : c ∉ ['t', 'f', '"']) :
    switch (ws ++ c :: value ++ rest) = .ok (b, tail) ↔
      tail = rest ∧ SwitchText lower (c :: value) b := by
  constructor
  · intro h
    obtain ⟨found, hfound, hb⟩ := switch_eq_ok_iff_value.1 h
    rw [List.append_assoc] at hfound
    rw [noSwitch_of_value hws hc hswitch hfound] at hb
    cases hb
  · rintro ⟨-, h⟩
    exact absurd (head_of_switchText h) hswitch

/-! ## What is read -/

section

variable (hlower : Text.Lowering lower)

include hlower

/-- Whatever lower case is, it is the same for the words that are looked for. -/
theorem switchWord?_settingWord_iff {s : List Char} {b : Bool} :
    switchWord? (Text.settingWord (String.ofList s)) = some b ↔
      ∃ word, Text.Trims s word ∧ String.ofList (lower word) ∈ switchWords b := by
  rw [switchWord?_eq_some_iff, Text.settingWord, String.toList_ofList]
  simp only [Text.trims_iff, exists_eq_left]
  constructor
  · intro h
    have hplain := plain_of_mem_switchWords b _ h
    rw [String.toList_ofList] at hplain
    rwa [(hlower.eq_iff hplain).2 rfl]
  · intro h
    have hplain := plain_of_mem_switchWords b _ h
    rw [String.toList_ofList] at hplain
    rwa [(hlower.eq_iff hplain).1 rfl]

/-- A switch is read from a value that stands for it, and from no other. -/
theorem switch_eq_ok_iff {ws value rest tail : List Char} {b : Bool} (hvalue : ValueText value)
    (hws : Blank ws) :
    switch (ws ++ value ++ rest) = .ok (b, tail) ↔ tail = rest ∧ SwitchText lower value b := by
  cases hvalue with
  | null => exact switch_of_other hws (by decide) (by decide)
  | bool b' =>
    rw [switch_eq_ok_iff_value, value_writeBool hws, switchText_writeBool_iff]
    constructor
    · rintro ⟨found, hfound, hb⟩
      cases hfound
      exact ⟨rfl, Except.ok.inj hb⟩
    · rintro ⟨rfl, rfl⟩
      exact ⟨.bool b', rfl, rfl⟩
  | number hnumber =>
    obtain ⟨c, text, rfl, hc⟩ := hnumber.head
    obtain ⟨hspace, hswitch⟩ := number_head hc
    exact switch_of_other hws hspace hswitch
  | @string body hbody =>
    rw [switch_eq_ok_iff_value, value_quoted hws, switchText_quoted_iff]
    constructor
    · rintro ⟨found, hfound, hb⟩
      obtain ⟨⟨s, tail'⟩, hstring, heq⟩ := exists_of_map hfound
      obtain ⟨htail, hspells⟩ := (string_eq_ok_iff hbody).1 hstring
      cases heq
      have hword := asSwitch_text_iff.1 hb
      obtain ⟨word, htrims, hmem⟩ := (switchWord?_settingWord_iff hlower).1 hword
      exact ⟨htail, s, word, hspells, htrims, hmem⟩
    · rintro ⟨rfl, s, word, hspells, htrims, hmem⟩
      refine ⟨.text (String.ofList s), ?_, asSwitch_text_iff.2 ?_⟩
      · rw [string_of_spells hspells]
        rfl
      · exact (switchWord?_settingWord_iff hlower).2 ⟨word, htrims, hmem⟩
  | emptyList _ => exact switch_of_other hws (by decide) (by decide)
  | list _ => exact switch_of_other hws (by decide) (by decide)
  | emptyObject _ => exact switch_of_other hws (by decide) (by decide)
  | object _ => exact switch_of_other hws (by decide) (by decide)

theorem readsIn_switch {value : List Char} {b : Bool} (hvalue : ValueText value)
    (h : SwitchText lower value b) : ReadsIn switch value b :=
  fun _ _ hws _ => (switch_eq_ok_iff hlower hvalue hws).2 ⟨rfl, h⟩

theorem switchText_unique {value : List Char} {b b' : Bool} (hvalue : ValueText value)
    (h : SwitchText lower value b) (h' : SwitchText lower value b') : b = b' := by
  have hread := readsIn_switch hlower hvalue h blank_nil follows_nil
  have hread' := readsIn_switch hlower hvalue h' blank_nil follows_nil
  exact congrArg Prod.fst (Except.ok.inj (hread.symm.trans hread'))

theorem local_switch : Local switch := by
  intro value ws rest b tail hvalue hws _ hread
  obtain ⟨htail, hb⟩ := (switch_eq_ok_iff hlower hvalue hws).1 hread
  exact ⟨htail, readsIn_switch hlower hvalue hb⟩

end

end ReturnHints
