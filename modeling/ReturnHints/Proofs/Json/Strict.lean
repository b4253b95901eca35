import ReturnHints.Proofs.Json.Object

/-!
# What a strict record accepts

Of all texts of objects, a strict record reads exactly those whose members it takes one after the
other, wherever blanks stand and however keys are escaped:

    r.Takes p m q : the member m turns the state p into q
    ObjectText ms text.toList →
      (readAll r.read text = .ok a ↔
        ∃ q, ReadsMembers r.member r.start ms q ∧ r.finish q = .ok a)        (readAll_eq_ok_iff)

The readers of the fields have to be local: where the text of a value ends is not for them to say.
-/

namespace ReturnHints.Json

/-! ## Local readers -/

/-- What the reader makes of a value does not depend on what stands around it. -/
def Local {α : Type} (read : Reader α) : Prop :=
  ∀ ⦃value ws rest : List Char⦄ ⦃a : α⦄ ⦃tail : List Char⦄, ValueText value → Blank ws →
    Follows rest → read (ws ++ value ++ rest) = .ok (a, tail) → tail = rest ∧ ReadsIn read value a

section

variable {π α : Type} {key : String} {get : π → Option α} {set : π → α → π} {read : Reader α}
  {optional : Bool} {p q : π}

theorem field_read_eq_ok_iff {cs tail : List Char} :
    (Field.of key get set read optional).read p cs = .ok (q, tail) ↔
      ∃ a, read cs = .ok (a, tail) ∧ q = set p a := by
  constructor
  · intro h
    obtain ⟨⟨a, rest⟩, ha, heq⟩ := exists_of_map h
    cases heq
    exact ⟨a, ha, rfl⟩
  · rintro ⟨a, ha, rfl⟩
    show (read cs).map _ = _
    rw [ha]
    rfl

theorem ReadsIn.field {value : List Char} {a : α} (h : ReadsIn read value a) (p : π) :
    ReadsIn ((Field.of key get set read optional).read p) value (set p a) := by
  intro ws rest hws hrest
  exact field_read_eq_ok_iff.2 ⟨a, h hws hrest, rfl⟩

theorem Local.field (h : Local read) (p : π) :
    Local ((Field.of key get set read optional).read p) := by
  intro value ws rest q tail hvalue hws hrest hread
  obtain ⟨a, ha, rfl⟩ := field_read_eq_ok_iff.1 hread
  obtain ⟨htail, ha⟩ := h hvalue hws hrest ha
  exact ⟨htail, ha.field p⟩

end

/-! ## Members and states -/

namespace Record

variable {π α : Type} {r : Record π α} {p q : π} {m : Member} {ms : List Member}
  {body rest tail : List Char}

/-- A member whose key spells that of a field which is not set yet turns one state into another. -/
def Takes (r : Record π α) (p : π) (m : Member) (q : π) : Prop :=
  ∃ key field, Spells m.key key ∧ r.fields.find? (·.key == String.ofList key) = some field ∧
    field.isSet p = false ∧ ReadsIn (field.read p) m.value q

theorem Takes.readsMember (h : r.Takes p m q) : ReadsMember r.member p m q := by
  obtain ⟨key, field, hspells, hfield, hset, hread⟩ := h
  rintro _ rest ⟨hws, hws', hrest⟩
  simp only [member, string_of_spells hspells, bind, Except.bind, hfield, hset, colon_blank hws,
    hread hws' hrest, Bool.false_eq_true, if_false]

variable (hstrict : r.strict = true) (hlocal : ∀ field ∈ r.fields, ∀ p, Local (field.read p))

include hstrict hlocal

/-- A member is read only if the record takes it. -/
theorem takes_of_member (hm : m.Correct) (hbody : MemberBody m body rest)
    (h : r.member p body = .ok (q, tail)) : tail = rest ∧ r.Takes p m q := by
  obtain ⟨hws, hws', hrest⟩ := hbody
  obtain ⟨⟨key, rest'⟩, hstring, h⟩ := bind_eq_ok_iff.1 h
  obtain ⟨rfl, hspells⟩ := (string_eq_ok_iff hm.key).1 hstring
  simp only [hstrict, if_true] at h
  split at h
  · next field hfield =>
    split at h
    · cases h
    · next hset =>
      rw [colon_blank hws] at h
      obtain ⟨htail, hread⟩ :=
        hlocal field (List.mem_of_find?_eq_some hfield) p hm.value hws' hrest h
      exact ⟨htail, key, field, hspells, hfield, by simpa using hset, hread⟩
  · cases h

theorem localAt_member (hm : m.Correct) : LocalAt r.member m := by
  intro p q body rest tail hbody h
  obtain ⟨htail, htakes⟩ := takes_of_member hstrict hlocal hm hbody h
  exact ⟨htail, htakes.readsMember⟩

theorem readsMember_iff_takes (hm : m.Correct) :
    ReadsMember r.member p m q ↔ r.Takes p m q := by
  constructor
  · intro h
    have hbody : MemberBody m _ [] := .mk blank_nil blank_nil follows_nil
    exact (takes_of_member hstrict hlocal hm hbody (h hbody)).2
  · exact Takes.readsMember

/-- Of the texts of objects, a strict record accepts those whose members it takes. -/
theorem readAll_eq_ok_iff {text : String} {a : α} (h : ObjectText ms text.toList) :
    readAll r.read text = .ok a ↔
      ∃ q, ReadsMembers r.member r.start ms q ∧ r.finish q = .ok a := by
  obtain ⟨before, value, behind, htext, hbefore, hbraces, hbehind⟩ := h.exists_braces
  constructor
  · intro hread
    obtain ⟨result, hrun, heq⟩ := r.exists_run hbraces hbefore behind
    rw [readAll, htext, heq] at hread
    obtain ⟨⟨a', tail⟩, hresult, hend⟩ := bind_eq_ok_iff.1 hread
    obtain ⟨⟨q, tail'⟩, hq, hdone⟩ := bind_eq_ok_iff.1 hresult
    obtain ⟨-, hq⟩ := hrun.only (fun m hm => localAt_member hstrict hlocal (h.correct m hm)) hq
    obtain ⟨-, hfinish⟩ := done_eq_ok_iff.1 hdone
    simp only at hend
    split at hend
    · cases hend
      exact ⟨q, hq, hfinish⟩
    · cases hend
  · rintro ⟨q, hq, hfinish⟩
    exact readAll_of_readsIn (readsIn_braces hbraces hq hfinish) hbefore hbehind htext

end Record

end ReturnHints.Json
