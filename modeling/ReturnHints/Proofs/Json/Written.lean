import ReturnHints.Proofs.Json.AnyOrder

/-!
# What is written is JSON

The texts that are written are among those of the grammar: a string spells the text it was written
for, a number has its digits, and an object has the members it was given.  So a record that is
written member by member fills its slots, in their order:

    Spells (s.flatMap escape) s                                            (spells_flatMap_escape)
    Slot.Written slots ms → RecordText slots (writeObject ms)                 (Written.recordText)
-/

namespace ReturnHints.Json

/-! ## Strings and numbers -/

theorem hex4?_control :
    ∀ n < 32, hex4? '0' '0' (hexDigit (n / 16)) (hexDigit (n % 16)) = some n := by
  decide

theorem spells_control {c : Char} {body s : List Char} (hc : c.toNat < 0x20) (h : Spells body s) :
    Spells ('\\' :: 'u' :: '0' :: '0' ::
      hexDigit (c.toNat / 16) :: hexDigit (c.toNat % 16) :: body) (c :: s) := by
  have htrailing : isTrailing c.toNat = false := by
    simp [isTrailing]
    omega
  have hleading : isLeading c.toNat = false := by
    simp [isLeading]
    omega
  have hspells := Spells.unit (hex4?_control c.toNat hc) htrailing hleading h
  rwa [Char.ofNat_toNat] at hspells

/-- A character is spelled as it is escaped. -/
theorem spells_escape (c : Char) {body s : List Char} (h : Spells body s) :
    Spells (escape c ++ body) (c :: s) := by
  have hshort : ∀ {e d : Char}, plainEscape? e = some d → (c == d) = true →
      Spells ('\\' :: e :: body) (c :: s) := by
    intro e d hescape hc
    rw [eq_of_beq hc]
    exact .short hescape h
  unfold escape
  split
  · next hspecial =>
    rcases (by simpa using hspecial : c = '"' ∨ c = '\\') with rfl | rfl
    · exact .short rfl h
    · exact .short rfl h
  next hspecial =>
  obtain ⟨hquote, hslash⟩ : c ≠ '"' ∧ c ≠ '\\' := by simpa using hspecial
  -- five control characters have a letter, the others a number
  split
  · next hc => exact hshort rfl hc
  split
  · next hc => exact hshort rfl hc
  split
  · next hc => exact hshort rfl hc
  split
  · next hc => exact hshort rfl hc
  split
  · next hc => exact hshort rfl hc
  split
  · next hlow => exact spells_control hlow h
  · next hlow => exact .plain hquote hslash (Nat.le_of_not_lt hlow) h

theorem spells_flatMap_escape (s : List Char) : Spells (s.flatMap escape) s := by
  induction s with
  | nil => exact .nil
  | cons c s ih =>
    rw [List.flatMap_cons]
    exact spells_escape c ih

theorem spelled_writeText (s : String) : Spelled s (writeText s) :=
  .mk (spells_flatMap_escape s.toList)

theorem numberText_writeNatural (n : Nat) : NumberText (writeNatural n) := by
  have hnumber := @NumberText.mk [] _ [] [] (by simp) (wholeText_digitChars n) .absent .absent
  rwa [List.append_nil, List.append_nil] at hnumber

/-! ## Objects -/

/-- The member that is written for a key and the text of its value. -/
def Member.written (m : String × List Char) : Member := ⟨m.1.toList.flatMap escape, m.2⟩

theorem memberText_writeMember {m : String × List Char} (h : ValueText m.2) :
    MemberText (.written m) (writeMember m) := by
  have hkey : StringText (Member.written m).key := (spells_flatMap_escape m.1.toList).stringText
  have htext := MemberText.mk (m := .written m) blank_nil hkey blank_nil blank_nil h blank_nil
  have hshape : writeMember m =
      '"' :: ((Member.written m).key ++ '"' :: ':' :: (Member.written m).value) := by
    simp [writeMember, writeText, Member.written]
  rw [hshape]
  simpa using htext

theorem membersText_commas {m : String × List Char} {ms : List (String × List Char)}
    (h : ∀ m' ∈ m :: ms, ValueText m'.2) :
    MembersText ((m :: ms).map .written) (commas ((m :: ms).map writeMember)) := by
  induction ms generalizing m with
  | nil => exact .last (memberText_writeMember (h m List.mem_cons_self))
  | cons m' ms ih =>
    obtain ⟨hm, hms⟩ := List.forall_mem_cons.1 h
    exact .more (memberText_writeMember hm) (ih hms)

theorem bracesText_writeObject {ms : List (String × List Char)} (h : ∀ m ∈ ms, ValueText m.2) :
    BracesText (ms.map .written) (writeObject ms) := by
  cases ms with
  | nil => exact .empty blank_nil
  | cons m ms => exact .members (membersText_commas h)

/-! ## Records -/

namespace Slot

variable {slot : Slot} {slots : List Slot} {ms : List (String × List Char)}

/-- What is written for the slots, in their order. -/
inductive Written : List Slot → List (String × List Char) → Prop
  | nil : Written [] []
  | cons {slot : Slot} {slots : List Slot} {text : List Char} {ms : List (String × List Char)} :
      ValueText text → slot.shows text → Written slots ms →
      Written (slot :: slots) ((slot.key, text) :: ms)
  | miss {slot : Slot} {slots : List Slot} {ms : List (String × List Char)} : slot.mayMiss →
      Written slots ms → Written (slot :: slots) ms

/-- What may be absent is written only if it is there. -/
theorem Written.optional {α : Type} {key : String} {shows : α → List Char → Prop} (o : Option α)
    {write : α → List Char} (hvalue : ∀ a ∈ o, ValueText (write a))
    (hshows : ∀ a ∈ o, shows a (write a)) (h : Written slots ms) :
    Written (⟨key, NullableText shows o, o = none⟩ :: slots)
      ((o.map fun a => (key, write a)).toList ++ ms) := by
  cases o with
  | none => exact .miss rfl h
  | some a =>
    have hshow : NullableText shows (some a) (write a) := .some (hshows a rfl)
    exact @cons ⟨key, _, _⟩ _ _ _ (hvalue a rfl) hshow h

theorem Written.valueText (h : Written slots ms) : ∀ m ∈ ms, ValueText m.2 := by
  induction h with
  | nil =>
    intro m hm
    cases hm
  | cons hvalue _ _ ih => exact List.forall_mem_cons.2 ⟨hvalue, ih⟩
  | miss _ _ ih => exact ih

theorem Written.given (h : Written slots ms) : Given slots (ms.map .written) := by
  induction h with
  | nil => exact .nil
  | cons _ hshows _ ih => exact .cons (spells_flatMap_escape _) hshows ih
  | miss hmiss _ ih => exact .miss hmiss ih

/-- What is written for the slots fills them. -/
theorem Written.recordText (h : Written slots ms) : RecordText slots (writeObject ms) := by
  refine .object (bracesText_writeObject h.valueText) ⟨ms.map .written, [], ?_, h.given, nofun⟩
  rw [List.append_nil]

end Slot

end ReturnHints.Json
