import Mathlib.Data.List.Forall2
import ReturnHints.Proofs.Json.Skip
import ReturnHints.Proofs.Json.Strict

/-!
# Records in any order

A record that is not strict is read from an object with its fields in any order and any other
members between them, and from the list of its fields.  A `Slot` says what a text may tell for one
field.  All texts of a record are then described at once, and it is read from each of them:

    RecordText slots value : an object or a list that fills the slots
    r.Builds slots state a → RecordText slots value → ReadsIn r.read value a     (Builds.readsIn)

While the record is read, the fields found so far are all that matters: `state seen` is the state
with the fields `seen`, in whatever order they came.
-/

namespace ReturnHints.Json

/-! ## Slots -/

/-- What a text may tell for a field: its key, the texts of its value, and whether its member may be
left out. -/
structure Slot where
  key : String
  shows : List Char → Prop
  mayMiss : Prop

namespace Slot

variable {slot : Slot} {slots : List Slot} {m : Member} {ms : List Member}

/-- The member has the key of the slot. -/
def Names (slot : Slot) (m : Member) : Prop := Spells m.key slot.key.toList

/-- The member has a key, and it is that of no slot. -/
def Other (slots : List Slot) (m : Member) : Prop :=
  ∃ key, Spells m.key key ∧ ∀ slot ∈ slots, slot.key.toList ≠ key

/-- The members of the slots, in the order of the slots. -/
inductive Given : List Slot → List Member → Prop
  | nil : Given [] []
  | cons {slot : Slot} {slots : List Slot} {m : Member} {ms : List Member} : slot.Names m →
      slot.shows m.value → Given slots ms → Given (slot :: slots) (m :: ms)
  | miss {slot : Slot} {slots : List Slot} {ms : List Member} : slot.mayMiss → Given slots ms →
      Given (slot :: slots) ms

/-- The members of the slots in any order, with any others between them. -/
def Filled (slots : List Slot) (ms : List Member) : Prop :=
  ∃ own others, ms.Perm (own ++ others) ∧ Given slots own ∧ ∀ m ∈ others, Other slots m

theorem Names.key_eq {slot' : Slot} (h : slot.Names m) (h' : slot'.Names m) :
    slot.key = slot'.key :=
  String.toList_inj.1 (Spells.unique h h')

theorem Other.not_names (h : Other slots m) (hslot : slot ∈ slots) : ¬ slot.Names m := by
  obtain ⟨key, hkey, hother⟩ := h
  intro hnames
  exact hother slot hslot (Spells.unique hnames hkey)

theorem Given.names (h : Given slots ms) :
    ∀ m ∈ ms, ∃ slot ∈ slots, slot.Names m ∧ slot.shows m.value := by
  induction h with
  | nil =>
    intro m hm
    cases hm
  | @cons slot slots m ms hnames hshows _ ih =>
    intro m' hm'
    rcases List.mem_cons.1 hm' with rfl | hm'
    · exact ⟨slot, List.mem_cons_self, hnames, hshows⟩
    · obtain ⟨slot', hslot', h⟩ := ih m' hm'
      exact ⟨slot', List.mem_cons_of_mem _ hslot', h⟩
  | miss _ _ ih =>
    intro m hm
    obtain ⟨slot', hslot', h⟩ := ih m hm
    exact ⟨slot', List.mem_cons_of_mem _ hslot', h⟩

theorem Given.complete (h : Given slots ms) :
    ∀ slot ∈ slots, slot.mayMiss ∨ ∃ m ∈ ms, slot.Names m := by
  induction h with
  | nil =>
    intro slot hslot
    cases hslot
  | @cons slot slots m ms hnames _ _ ih =>
    refine List.forall_mem_cons.2 ⟨.inr ⟨m, List.mem_cons_self, hnames⟩, fun slot' hslot' => ?_⟩
    refine (ih slot' hslot').imp_right ?_
    rintro ⟨m', hm', hnames'⟩
    exact ⟨m', List.mem_cons_of_mem _ hm', hnames'⟩
  | miss hmiss _ ih => exact List.forall_mem_cons.2 ⟨.inl hmiss, ih⟩

/-- Different slots have members with different keys. -/
theorem Given.pairwise (h : Given slots ms) (hnodup : (slots.map Slot.key).Nodup) :
    ms.Pairwise Member.Apart := by
  induction h with
  | nil => exact .nil
  | @cons slot slots m ms hnames _ hgiven ih =>
    obtain ⟨hkey, hnodup⟩ := List.nodup_cons.1 hnodup
    refine List.pairwise_cons.2 ⟨fun m' hm' s hs hs' => ?_, ih hnodup⟩
    obtain ⟨slot', hslot', hnames', _⟩ := hgiven.names m' hm'
    obtain rfl := Spells.unique hs hnames
    rw [String.toList_inj.1 (Spells.unique hs' hnames')] at hkey
    exact hkey (List.mem_map_of_mem hslot')
  | miss _ _ ih => exact ih (List.nodup_cons.1 hnodup).2

/-- No slot has two members. -/
def Single (slots : List Slot) (ms : List Member) : Prop :=
  ms.Pairwise fun m m' => ∀ slot ∈ slots, slot.Names m → ¬ slot.Names m'

theorem Filled.single (h : Filled slots ms) (hnodup : (slots.map Slot.key).Nodup) :
    Single slots ms := by
  obtain ⟨own, others, hperm, hgiven, hothers⟩ := h
  refine (hperm.pairwise_iff fun {m m'} h slot hslot hm' hm => h slot hslot hm hm').2 ?_
  refine List.pairwise_append.2 ⟨?_, ?_, ?_⟩
  · exact (hgiven.pairwise hnodup).imp fun hapart slot _ hm hm' => hapart _ hm hm'
  · exact List.pairwise_of_forall_mem_list fun m hm _ _ slot hslot hnames =>
      absurd hnames ((hothers m hm).not_names hslot)
  · exact fun _ _ m' hm' slot hslot _ => (hothers m' hm').not_names hslot

theorem Filled.names (h : Filled slots ms) :
    ∀ m ∈ ms, Other slots m ∨ ∃ slot ∈ slots, slot.Names m ∧ slot.shows m.value := by
  obtain ⟨own, others, hperm, hgiven, hothers⟩ := h
  intro m hm
  rcases List.mem_append.1 (hperm.mem_iff.1 hm) with hm | hm
  · exact .inr (hgiven.names m hm)
  · exact .inl (hothers m hm)

theorem Filled.complete (h : Filled slots ms) :
    ∀ slot ∈ slots, slot.mayMiss ∨ ∃ m ∈ ms, slot.Names m := by
  obtain ⟨own, others, hperm, hgiven, _⟩ := h
  intro slot hslot
  refine (hgiven.complete slot hslot).imp_right ?_
  rintro ⟨m, hm, hnames⟩
  exact ⟨m, hperm.mem_iff.2 (List.mem_append_left _ hm), hnames⟩

end Slot

/-- The value is an object or a list that fills the slots. -/
inductive RecordText (slots : List Slot) : List Char → Prop
  | object {ms value} : BracesText ms value → Slot.Filled slots ms → RecordText slots value
  | list {values value} : BracketsText values value →
      List.Forall₂ (fun slot value => slot.shows value) slots values → RecordText slots value

/-! ## Records that fill their slots -/

variable {π α : Type} {field : Json.Field π} {slot : Slot} {slots : List Slot}
  {state : List String → π} {seen : List String} {r : Record π α} {a : α} {p q : π}
  {m : Member} {ms : List Member} {value text ws rest : List Char} {values : List (List Char)}

/-- The field is not set as long as its key was not seen, and is set by any value that the slot
shows. -/
def Field.Takes (field : Json.Field π) (slot : Slot) (state : List String → π) : Prop :=
  field.key = slot.key ∧ ∀ seen, slot.key ∉ seen → field.isSet (state seen) = false ∧
    ∀ value, slot.shows value → ReadsIn (field.read (state seen)) value (state (slot.key :: seen))

/-- The record makes `a` of the values that the slots show. -/
structure Record.Builds (r : Record π α) (slots : List Slot) (state : List String → π) (a : α) :
    Prop where
  lax : r.strict = false
  nodup : (slots.map Slot.key).Nodup
  start : r.start = state []
  fields : List.Forall₂ (fun field slot => field.Takes slot state) r.fields slots
  finish : ∀ seen, (∀ slot ∈ slots, slot.mayMiss ∨ slot.key ∈ seen) → r.finish (state seen) = .ok a

/-! ## Objects -/

namespace Record

/-- Any other member is skipped. -/
theorem readsMember_other (hlax : r.strict = false) {key : List Char} (hkey : Spells m.key key)
    (hnone : r.fields.find? (·.key == String.ofList key) = none) (hvalue : ValueText m.value) :
    ReadsMember r.member p m p := by
  rintro _ rest ⟨hws, hws', hrest⟩
  simp only [member, string_of_spells hkey, bind, Except.bind, hnone, hlax, colon_blank hws,
    skipsIn_skip hvalue hws' hrest, Bool.false_eq_true, if_false]
  rfl

theorem find?_of_mem {fields : List (Json.Field π)}
    (h : List.Forall₂ (fun field slot => Field.Takes field slot state) fields slots)
    (hnodup : (slots.map Slot.key).Nodup) (hslot : slot ∈ slots) :
    ∃ field, fields.find? (·.key == slot.key) = some field ∧ Field.Takes field slot state := by
  induction h with
  | nil => cases hslot
  | @cons field slot' fields slots htakes _ ih =>
    obtain ⟨hkey, hnodup⟩ := List.nodup_cons.1 hnodup
    rcases List.mem_cons.1 hslot with rfl | hslot
    · exact ⟨field, List.find?_cons_of_pos (by simp [htakes.1]), htakes⟩
    · have hne : slot'.key ≠ slot.key := by
        intro heq
        rw [heq] at hkey
        exact hkey (List.mem_map_of_mem hslot)
      rw [List.find?_cons_of_neg (by simp [htakes.1, hne])]
      exact ih hnodup hslot

theorem find?_eq_none_of_other {fields : List (Json.Field π)}
    (h : List.Forall₂ (fun field slot => Field.Takes field slot state) fields slots) {key : String}
    (hkey : ∀ slot ∈ slots, slot.key ≠ key) : fields.find? (·.key == key) = none := by
  induction h with
  | nil => rfl
  | @cons field slot fields slots htakes _ ih =>
    obtain ⟨hne, hkey⟩ := List.forall_mem_cons.1 hkey
    rw [List.find?_cons_of_neg (by simp [htakes.1, hne])]
    exact ih hkey

namespace Builds

theorem readsMember_slot (h : r.Builds slots state a) (hslot : slot ∈ slots) (hnames : slot.Names m)
    (hshows : slot.shows m.value) (hseen : slot.key ∉ seen) :
    ReadsMember r.member (state seen) m (state (slot.key :: seen)) := by
  obtain ⟨field, hfind, _, htakes⟩ := find?_of_mem h.fields h.nodup hslot
  obtain ⟨hset, hread⟩ := htakes seen hseen
  apply Takes.readsMember
  exact ⟨_, field, hnames, by rw [String.ofList_toList]; exact hfind, hset, hread _ hshows⟩

theorem readsMember_skipped (h : r.Builds slots state a) (hother : Slot.Other slots m)
    (hvalue : ValueText m.value) : ReadsMember r.member p m p := by
  obtain ⟨key, hkey, hne⟩ := hother
  refine readsMember_other h.lax hkey (find?_eq_none_of_other h.fields ?_) hvalue
  intro slot hslot heq
  exact hne slot hslot (by rw [heq, String.toList_ofList])

/-- Whatever the order of the members, each slot is filled that has one. -/
theorem exists_readsMembers (h : r.Builds slots state a) (hvalue : ∀ m ∈ ms, ValueText m.value)
    (hnames : ∀ m ∈ ms, Slot.Other slots m ∨
      ∃ slot ∈ slots, slot.Names m ∧ slot.shows m.value)
    (hsingle : Slot.Single slots ms)
    (hseen : ∀ m ∈ ms, ∀ slot ∈ slots, slot.Names m → slot.key ∉ seen) :
    ∃ seen', ReadsMembers r.member (state seen) ms (state seen') ∧ (∀ key ∈ seen, key ∈ seen') ∧
      ∀ m ∈ ms, ∀ slot ∈ slots, slot.Names m → slot.key ∈ seen' := by
  induction ms generalizing seen with
  | nil => exact ⟨seen, .nil, fun _ hkey => hkey, fun m hm => absurd hm List.not_mem_nil⟩
  | cons m ms ih =>
    obtain ⟨hvalue, hvalues⟩ := List.forall_mem_cons.1 hvalue
    obtain ⟨hname, hnames⟩ := List.forall_mem_cons.1 hnames
    obtain ⟨hapart, hsingle⟩ := List.pairwise_cons.1 hsingle
    obtain ⟨hfresh, hseen⟩ := List.forall_mem_cons.1 hseen
    rcases hname with hother | ⟨slot, hslot, hname, hshows⟩
    · obtain ⟨seen', hread, hkeep, hmarked⟩ := ih hvalues hnames hsingle hseen
      refine ⟨seen', .cons (h.readsMember_skipped hother hvalue) hread, hkeep,
        List.forall_mem_cons.2 ⟨fun slot hslot hname => ?_, hmarked⟩⟩
      exact absurd hname (hother.not_names hslot)
    · have hfirst := h.readsMember_slot hslot hname hshows (hfresh slot hslot hname)
      have hnext : ∀ m' ∈ ms, ∀ slot' ∈ slots, slot'.Names m' → slot'.key ∉ slot.key :: seen := by
        intro m' hm' slot' hslot' hname' hmem
        rcases List.mem_cons.1 hmem with heq | hmem
        · refine hapart m' hm' slot hslot hname ?_
          rw [Slot.Names, ← heq]
          exact hname'
        · exact hseen m' hm' slot' hslot' hname' hmem
      obtain ⟨seen', hread, hkeep, hmarked⟩ := ih hvalues hnames hsingle hnext
      refine ⟨seen', .cons hfirst hread, fun key hkey => hkeep key (List.mem_cons_of_mem _ hkey),
        List.forall_mem_cons.2 ⟨fun slot' _ hname' => ?_, hmarked⟩⟩
      rw [hname'.key_eq hname]
      exact hkeep _ List.mem_cons_self

/-- The members of an object that fills the slots lead to the record. -/
theorem exists_finish (h : r.Builds slots state a) (htext : BracesText ms value)
    (hfilled : Slot.Filled slots ms) :
    ∃ q, ReadsMembers r.member r.start ms q ∧ r.finish q = .ok a := by
  obtain ⟨seen, hread, _, hmarked⟩ := h.exists_readsMembers (fun m hm => (htext.correct m hm).value)
    hfilled.names (hfilled.single h.nodup) fun _ _ _ _ _ => List.not_mem_nil
  refine ⟨state seen, by rw [h.start]; exact hread, h.finish seen fun slot hslot => ?_⟩
  refine (hfilled.complete slot hslot).imp_right ?_
  rintro ⟨m, hm, hnames⟩
  exact hmarked m hm slot hslot hnames

end Builds

/-! ## Lists -/

theorem slots_blank_close (r : Record π α) (i : Nat) (p : π) (hws : Blank ws) (rest : List Char) :
    r.slots i p [] (ws ++ ']' :: rest) = .ok (p, rest) := by
  rw [slots, skipSpaces_blank hws (by decide)]
  rfl

theorem slots_blank_first (r : Record π α) (p : π) (field : Json.Field π)
    (fields : List (Json.Field π)) (hws : Blank ws) (hvalue : ValueText value) (rest : List Char) :
    r.slots 0 p (field :: fields) (ws ++ value ++ rest) =
      field.read p (value ++ rest) >>= fun (p, rest) => r.slots 1 p fields rest := by
  obtain ⟨c, tail, rfl, hspace, hclose⟩ := hvalue.head
  rw [slots, List.append_assoc, List.cons_append, skipSpaces_blank hws hspace]
  split
  · next heq => cases heq
  · next heq => exact absurd (List.cons.inj heq).1 hclose
  · next heq =>
    obtain ⟨rfl, rfl⟩ := List.cons.inj heq
    rfl

theorem slots_blank_comma (r : Record π α) (i : Nat) (p : π) (field : Json.Field π)
    (fields : List (Json.Field π)) {ws' : List Char} (hws : Blank ws) (hws' : Blank ws')
    (hvalue : ValueText value) (rest : List Char) :
    r.slots (i + 1) p (field :: fields) (ws ++ ',' :: (ws' ++ value ++ rest)) =
      field.read p (value ++ rest) >>= fun (p, rest) => r.slots (i + 2) p fields rest := by
  obtain ⟨c, tail, rfl, hspace, hclose⟩ := hvalue.head
  have hnext : skipSpaces (ws' ++ c :: tail ++ rest) = c :: (tail ++ rest) := by
    rw [List.append_assoc, List.cons_append, skipSpaces_blank hws' hspace]
  rw [slots, skipSpaces_blank hws (by decide)]
  show (if i + 1 = 0 then _ else if ',' = ',' then _ else _) = _
  rw [if_neg (Nat.succ_ne_zero i), if_pos rfl, hnext]
  split
  · next heq => cases heq
  · next heq => exact absurd (List.cons.inj heq).1 hclose
  · rfl

/-- The fields are read one after the other from the items of the list, from the first one on, be it
behind the bracket or behind a comma. -/
theorem exists_first_item {fields : List (Json.Field π)} (r : Record π α)
    (htext : ItemTexts values text)
    (hfields : List.Forall₂ (fun field slot => Field.Takes field slot state) fields slots)
    (hshows : List.Forall₂ (fun slot value => slot.shows value) slots values)
    (hnodup : (slots.map Slot.key).Nodup) (hseen : ∀ slot ∈ slots, slot.key ∉ seen)
    (rest : List Char) :
    ∃ ws value behind field others, text ++ ']' :: rest = ws ++ value ++ behind ∧
      fields = field :: others ∧ Blank ws ∧ ValueText value ∧
      ∀ i, (field.read (state seen) (value ++ behind) >>= fun (p, rest) =>
          r.slots (i + 1) p others rest) =
        .ok (state ((slots.map Slot.key).reverse ++ seen), rest) := by
  induction htext generalizing fields slots seen with
  | @last ws₁ value ws₂ hws₁ hvalue hws₂ =>
    obtain _ | ⟨hshow, ⟨⟩⟩ := hshows
    obtain _ | ⟨htakes, ⟨⟩⟩ := hfields
    next slot field =>
    obtain ⟨_, hread⟩ := htakes.2 seen (hseen slot List.mem_cons_self)
    have hfirst := hread value hshow blank_nil ((follows_bracket rest).blank hws₂)
    rw [List.nil_append] at hfirst
    refine ⟨ws₁, value, ws₂ ++ ']' :: rest, field, [], by simp, rfl, hws₁, hvalue, fun i => ?_⟩
    rw [hfirst]
    exact slots_blank_close r (i + 1) _ hws₂ rest
  | @more ws₁ value ws₂ values more hws₁ hvalue hws₂ _ ih =>
    obtain _ | ⟨hshow, hshows⟩ := hshows
    obtain _ | ⟨htakes, hfields⟩ := hfields
    next slot slots field fields =>
    obtain ⟨hkey, hnodup⟩ := List.nodup_cons.1 hnodup
    obtain ⟨hfresh, hseen⟩ := List.forall_mem_cons.1 hseen
    obtain ⟨_, hread⟩ := htakes.2 seen hfresh
    have hfirst := hread value hshow blank_nil ((follows_comma (more ++ ']' :: rest)).blank hws₂)
    rw [List.nil_append] at hfirst
    have hnext : ∀ slot' ∈ slots, slot'.key ∉ slot.key :: seen := by
      intro slot' hslot' hmem
      rcases List.mem_cons.1 hmem with heq | hmem
      · exact hkey (heq ▸ List.mem_map_of_mem hslot')
      · exact hseen slot' hslot' hmem
    obtain ⟨ws₃, value', behind, field', others, hshape, rfl, hws₃, hvalue', hmore⟩ :=
      ih hfields hshows hnodup hnext
    refine ⟨ws₁, value, ws₂ ++ ',' :: (more ++ ']' :: rest), field, _, by simp, rfl, hws₁, hvalue,
      fun i => ?_⟩
    rw [hfirst, List.map_cons, List.reverse_cons, List.append_assoc, hshape]
    exact (slots_blank_comma r i _ _ _ hws₂ hws₃ hvalue' behind).trans (hmore (i + 1))

namespace Builds

/-- A list that fills the slots is read to the state of the record. -/
theorem exists_slots (h : r.Builds slots state a) (htext : BracketsText values value)
    (hshows : List.Forall₂ (fun slot value => slot.shows value) slots values) (rest : List Char) :
    ∃ inner q, value = '[' :: inner ∧ r.slots 0 r.start r.fields (inner ++ rest) = .ok (q, rest) ∧
      r.finish q = .ok a := by
  have hfields := h.fields
  rw [h.start]
  cases htext with
  | @empty ws hws =>
    obtain ⟨⟩ := hshows
    have hnil : r.fields = [] := List.forall₂_nil_right_iff.1 hfields
    refine ⟨ws ++ [']'], state [], rfl, ?_, h.finish [] fun slot hslot => ?_⟩
    · rw [hnil, List.append_assoc]
      exact slots_blank_close r 0 _ hws rest
    · cases hslot
  | @items _ inside hitems =>
    obtain ⟨ws, value, behind, field, others, hshape, hcons, hws, hvalue, hread⟩ :=
      exists_first_item r hitems hfields hshows h.nodup (fun _ _ => List.not_mem_nil) rest
    refine ⟨inside ++ [']'], state ((slots.map Slot.key).reverse ++ []), rfl, ?_,
      h.finish _ fun slot hslot => .inr ?_⟩
    · rw [List.append_assoc, List.singleton_append, hshape, hcons,
        slots_blank_first r _ _ _ hws hvalue]
      exact hread 0
    · rw [List.append_nil, List.mem_reverse]
      exact List.mem_map_of_mem hslot

/-! ## Both -/

/-- A record is read from every text that fills its slots. -/
theorem readsIn (h : r.Builds slots state a) (htext : RecordText slots value) :
    ReadsIn r.read value a := by
  cases htext with
  | object hbraces hfilled =>
    obtain ⟨q, hread, hfinish⟩ := h.exists_finish hbraces hfilled
    exact readsIn_braces hbraces hread hfinish
  | list hbrackets hshows =>
    intro ws rest hws _
    obtain ⟨inner, q, rfl, hslots, hfinish⟩ := h.exists_slots hbrackets hshows rest
    rw [List.append_assoc, List.cons_append, read, skipSpaces_blank hws (by decide)]
    show r.slots 0 r.start r.fields _ >>= read.done r = _
    rw [hslots]
    exact done_eq_ok_iff.2 ⟨rfl, hfinish⟩

end Builds

end Record

/-! ## Values of fields -/

/-- A value that is a string and spells the text. -/
inductive Spelled (s : String) : List Char → Prop
  | mk {body : List Char} : Spells body s.toList → Spelled s ('"' :: (body ++ ['"']))

/-- The value of a field whose key was seen. -/
def known {β : Type} (key : String) (b : β) (seen : List String) : Option β :=
  if key ∈ seen then some b else none

theorem known_of_mem {β : Type} {key : String} (b : β) (h : key ∈ seen) :
    known key b seen = some b :=
  if_pos h

theorem known_of_not_mem {β : Type} {key : String} (b : β) (h : key ∉ seen) :
    known key b seen = none :=
  if_neg h

/-- A value that was not seen may be the one that is taken then. -/
theorem getD_known {β : Type} {key : String} {b d : β} (h : b = d ∨ key ∈ seen) :
    (known key b seen).getD d = b := by
  by_cases hseen : key ∈ seen
  · rw [known_of_mem b hseen, Option.getD_some]
  · rw [known_of_not_mem b hseen, Option.getD_none, h.resolve_right hseen]

/-- A field that is kept as an option takes what its reader reads. -/
theorem Field.takes_of {β : Type} {key : String} {get : π → Option β} {set : π → β → π}
    {read : Reader β} {optional : Bool} {shows : List Char → Prop} {mayMiss : Prop} {b : β}
    (hread : ∀ value, shows value → ReadsIn read value b)
    (hget : ∀ seen, get (state seen) = known key b seen)
    (hset : ∀ seen, set (state seen) b = state (key :: seen)) :
    (Field.of key get set read optional).Takes ⟨key, shows, mayMiss⟩ state := by
  refine ⟨rfl, fun seen hseen => ⟨?_, fun value hshows => ?_⟩⟩
  · show (get (state seen)).isSome = false
    rw [hget, known_of_not_mem b hseen]
    rfl
  · show ReadsIn _ value (state (key :: seen))
    rw [← hset]
    exact (hread value hshows).field (state seen)

/-- `null` for nothing, and for something what shows it. -/
inductive NullableText {α : Type} (shows : α → List Char → Prop) : Option α → List Char → Prop
  | null : NullableText shows none ['n', 'u', 'l', 'l']
  | some {a : α} {value : List Char} : shows a value → NullableText shows (some a) value

theorem readsIn_text {s : String} (h : Spelled s value) : ReadsIn readText value s := by
  obtain ⟨hbody⟩ := h
  intro ws rest hws _
  rw [List.append_assoc, List.cons_append, readText, skipSpaces_blank hws (by decide),
    List.append_assoc]
  show (string (_ ++ '"' :: rest)).map _ = _
  rw [string_of_spells hbody]
  simp [Except.map]

theorem readsIn_null {read : Reader α} : ReadsIn (readNullable read) ['n', 'u', 'l', 'l'] none := by
  intro ws rest hws _
  rw [List.append_assoc, List.cons_append, readNullable, skipSpaces_blank hws (by decide)]
  rfl

/-- What does not look like `null` is read as something. -/
theorem ReadsIn.some {read : Reader α} {c : Char} {tail : List Char}
    (h : ReadsIn read (c :: tail) a) (hspace : isSpace c = false) (hn : c ≠ 'n') :
    ReadsIn (readNullable read) (c :: tail) (some a) := by
  intro ws rest hws hrest
  have hread := h blank_nil hrest
  rw [List.append_assoc, List.cons_append, readNullable, skipSpaces_blank hws hspace]
  split
  · next heq => exact absurd (List.cons.inj heq).1 hn
  · rw [List.nil_append, List.cons_append] at hread
    rw [hread]
    rfl

theorem Spelled.head {s : String} (h : Spelled s value) : ∃ tail, value = '"' :: tail := by
  obtain ⟨_⟩ := h
  exact ⟨_, rfl⟩

theorem RecordText.head (h : RecordText slots value) :
    ∃ c tail, value = c :: tail ∧ (c = '{' ∨ c = '[') := by
  obtain ⟨hbraces, _⟩ | ⟨hbrackets, _⟩ := h
  · cases hbraces <;> exact ⟨_, _, rfl, .inl rfl⟩
  · cases hbrackets <;> exact ⟨_, _, rfl, .inr rfl⟩

theorem Spelled.valueText {s : String} (h : Spelled s value) : ValueText value := by
  obtain ⟨hbody⟩ := h
  exact .string hbody.stringText

theorem RecordText.valueText (h : RecordText slots value) : ValueText value := by
  obtain ⟨hbraces, _⟩ | ⟨hbrackets, _⟩ := h
  · exact hbraces.valueText
  · exact hbrackets.valueText

end ReturnHints.Json
