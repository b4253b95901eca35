import ReturnHints.Proofs.Wire.Switch
import ReturnHints.Wire.Report

/-!
# Which options are accepted

Options are accepted if each member of their object sets another of the three options, and sets it
to a boolean or to one of the words for it.  An option that no member sets has its default.  The
order of the members and the blanks between them do not matter:

    ObjectText ms text.toList →
      ((∃ o, ofJson text = .ok o) ↔
        (∀ m ∈ ms, ∃ k : Key, k.Names m) ∧ ms.Pairwise Member.Apart ∧
          ∀ m ∈ ms, ∃ b, SwitchText lower m.value b)                      (exists_ofJson_iff)
-/

namespace ReturnHints

open Json

namespace Options

/-! ## The three options -/

inductive Key
  | isolateFailures
  | includeAnonymous
  | skipAnnotated
deriving DecidableEq

namespace Key

def all : List Key := [isolateFailures, includeAnonymous, skipAnnotated]

def name : Key → String
  | isolateFailures => "isolateFailures"
  | includeAnonymous => "includeAnonymous"
  | skipAnnotated => "skipAnnotated"

theorem name_inj : ∀ {k k' : Key}, k.name = k'.name → k = k' := by
  intro k k'
  cases k <;> cases k' <;> decide

end Key

def get (o : Options) : Key → Bool
  | .isolateFailures => o.isolateFailures
  | .includeAnonymous => o.includeAnonymous
  | .skipAnnotated => o.skipAnnotated

theorem ext_get {o o' : Options} (h : ∀ k, o.get k = o'.get k) : o = o' := by
  obtain ⟨a, b, c⟩ := o
  obtain ⟨a', b', c'⟩ := o'
  obtain rfl : a = a' := h .isolateFailures
  obtain rfl : b = b' := h .includeAnonymous
  obtain rfl : c = c' := h .skipAnnotated
  rfl

namespace Parts

def get (p : Parts) : Key → Option Bool
  | .isolateFailures => p.isolateFailures
  | .includeAnonymous => p.includeAnonymous
  | .skipAnnotated => p.skipAnnotated

def set (p : Parts) : Key → Bool → Parts
  | .isolateFailures, b => { p with isolateFailures := some b }
  | .includeAnonymous, b => { p with includeAnonymous := some b }
  | .skipAnnotated, b => { p with skipAnnotated := some b }

theorem get_set_self (p : Parts) (k : Key) (b : Bool) : (p.set k b).get k = some b := by
  cases k <;> rfl

theorem get_set_of_ne (p : Parts) {k k' : Key} (b : Bool) (h : k' ≠ k) :
    (p.set k b).get k' = p.get k' := by
  cases k <;> cases k' <;> simp [get, set] at h ⊢

end Parts

/-- The field of an option. -/
def Key.field (k : Key) : Json.Field Parts := .of k.name (·.get k) (·.set k) switch true

theorem fields_record : record.fields = Key.all.map Key.field := rfl

theorem find?_fields_iff {name : String} {field : Json.Field Parts} :
    record.fields.find? (·.key == name) = some field ↔
      ∃ k : Key, k.name = name ∧ k.field = field := by
  constructor
  · intro h
    have hmem := List.mem_of_find?_eq_some h
    rw [fields_record, List.mem_map] at hmem
    obtain ⟨k, -, rfl⟩ := hmem
    have hname := List.find?_some h
    exact ⟨k, eq_of_beq hname, rfl⟩
  · rintro ⟨k, rfl, rfl⟩
    cases k <;> rfl

/-- The options that are made of the parts. -/
theorem finish_eq (p : Parts) :
    ∃ o, record.finish p = .ok o ∧ ∀ k, o.get k = (p.get k).getD (({} : Options).get k) := by
  refine ⟨_, rfl, fun k => ?_⟩
  cases k <;> rfl

/-! ## Members of the object -/

variable {p q : Parts} {m : Member} {ms : List Member}

/-- The member is for the option. -/
def Key.Names (k : Key) (m : Member) : Prop := Spells m.key k.name.toList

theorem Key.Names.unique {k k' : Key} (h : k.Names m) (h' : k'.Names m) : k = k' :=
  Key.name_inj (String.toList_inj.1 (Spells.unique h h'))

theorem get_start (k : Key) : ({} : Parts).get k = none := by
  cases k <;> rfl

section

variable {lower : List Char → List Char} (hlower : Text.Lowering lower)

include hlower

theorem local_fields : ∀ field ∈ record.fields, ∀ p, Local (field.read p) := by
  intro field hfield p
  rw [fields_record, List.mem_map] at hfield
  obtain ⟨k, -, rfl⟩ := hfield
  exact (local_switch hlower).field p

/-- A member is read that sets an option which is not set yet. -/
theorem readsMember_iff (hm : m.Correct) :
    ReadsMember record.member p m q ↔ ∃ (k : Key) (b : Bool), k.Names m ∧ p.get k = none ∧
      SwitchText lower m.value b ∧ q = p.set k b := by
  rw [Record.readsMember_iff_takes rfl (local_fields hlower) hm]
  constructor
  · rintro ⟨key, field, hspells, hfield, hset, hread⟩
    obtain ⟨k, hname, rfl⟩ := find?_fields_iff.1 hfield
    obtain ⟨b, hb, rfl⟩ := field_read_eq_ok_iff.1 (hread blank_nil follows_nil)
    have hkey : k.name.toList = key := by rw [hname, String.toList_ofList]
    refine ⟨k, b, ?_, Option.isNone_iff_eq_none.1 ?_, ?_, rfl⟩
    · rw [Key.Names, hkey]
      exact hspells
    · simpa [Key.field, Json.Field.of] using hset
    · exact ((switch_eq_ok_iff hlower hm.value blank_nil).1 hb).2
  · rintro ⟨k, b, hname, hget, hb, rfl⟩
    refine ⟨k.name.toList, k.field, hname, find?_fields_iff.2 ⟨k, by simp, rfl⟩, ?_, ?_⟩
    · show (p.get k).isSome = false
      rw [hget]
      rfl
    · exact (readsIn_switch hlower hm.value hb).field p

/-- The members are read if each has another option for its key and a value that stands for a
boolean. -/
theorem exists_readsMembers_iff (hms : ∀ m ∈ ms, m.Correct) :
    (∃ q, ReadsMembers record.member p ms q) ↔
      (∀ m ∈ ms, ∃ k : Key, k.Names m ∧ p.get k = none) ∧ ms.Pairwise Member.Apart ∧
        ∀ m ∈ ms, ∃ b, SwitchText lower m.value b := by
  induction ms generalizing p with
  | nil => exact ⟨fun _ => ⟨nofun, .nil, nofun⟩, fun _ => ⟨p, .nil⟩⟩
  | cons m ms ih =>
    obtain ⟨hm, hms⟩ := List.forall_mem_cons.1 hms
    simp only [List.forall_mem_cons, List.pairwise_cons]
    constructor
    · rintro ⟨q, _ | ⟨hfirst, hmore⟩⟩
      obtain ⟨k, b, hname, hget, hb, rfl⟩ := (readsMember_iff hlower hm).1 hfirst
      obtain ⟨hkeys, hapart, hvalues⟩ := (ih hms).1 ⟨q, hmore⟩
      -- the option of a later member was not set before, and not by this member
      have hother : ∀ m' ∈ ms, ∃ k' : Key, k'.Names m' ∧ p.get k' = none ∧ k' ≠ k := by
        intro m' hm'
        obtain ⟨k', hname', hget'⟩ := hkeys m' hm'
        have hne : k' ≠ k := by
          rintro rfl
          rw [Parts.get_set_self] at hget'
          cases hget'
        rw [Parts.get_set_of_ne p b hne] at hget'
        exact ⟨k', hname', hget', hne⟩
      refine ⟨⟨⟨k, hname, hget⟩, fun m' hm' => ?_⟩, ⟨fun m' hm' s hs hs' => ?_, hapart⟩,
        ⟨b, hb⟩, hvalues⟩
      · obtain ⟨k', hname', hget', -⟩ := hother m' hm'
        exact ⟨k', hname', hget'⟩
      · obtain ⟨k', hname', -, hne⟩ := hother m' hm'
        obtain rfl := hs.unique hname
        exact hne (hname'.unique hs')
    · rintro ⟨⟨⟨k, hname, hget⟩, hkeys⟩, ⟨hhead, hapart⟩, ⟨b, hb⟩, hvalues⟩
      have hmore : ∀ m' ∈ ms, ∃ k' : Key, k'.Names m' ∧ (p.set k b).get k' = none := by
        intro m' hm'
        obtain ⟨k', hname', hget'⟩ := hkeys m' hm'
        have hne : k' ≠ k := by
          rintro rfl
          exact hhead m' hm' _ hname hname'
        exact ⟨k', hname', by rw [Parts.get_set_of_ne p b hne, hget']⟩
      obtain ⟨q, hq⟩ := (ih hms).2 ⟨hmore, hapart, hvalues⟩
      exact ⟨q, .cons ((readsMember_iff hlower hm).2 ⟨k, b, hname, hget, hb, rfl⟩) hq⟩

/-- Afterwards an option is what it was before, or what a member says. -/
theorem get_readsMembers_iff (hms : ∀ m ∈ ms, m.Correct) (h : ReadsMembers record.member p ms q)
    {k : Key} {b : Bool} :
    q.get k = some b ↔
      p.get k = some b ∨ ∃ m ∈ ms, k.Names m ∧ SwitchText lower m.value b := by
  induction h with
  | nil => simp
  | cons hfirst _ ih =>
    obtain ⟨hm, hms⟩ := List.forall_mem_cons.1 hms
    obtain ⟨k₀, b₀, hname, hget, hb, rfl⟩ := (readsMember_iff hlower hm).1 hfirst
    rw [ih hms, List.exists_mem_cons_iff, ← or_assoc]
    refine or_congr_left ?_
    by_cases hk : k = k₀
    · subst hk
      rw [Parts.get_set_self, hget, Option.some.injEq]
      constructor
      · rintro rfl
        exact .inr ⟨hname, hb⟩
      · rintro (h | ⟨-, hb'⟩)
        · cases h
        · exact switchText_unique hlower hm.value hb hb'
    · rw [Parts.get_set_of_ne _ b₀ hk]
      have hnot : ¬ k.Names _ := fun h => hk (h.unique hname)
      simp [hnot]

/-! ## Texts of options -/

section

variable {text : String} (h : ObjectText ms text.toList)

include h

theorem ofJson_eq_ok_iff {o : Options} :
    ofJson text = .ok o ↔
      ∃ q, ReadsMembers record.member {} ms q ∧ record.finish q = .ok o :=
  Record.readAll_eq_ok_iff rfl (local_fields hlower) h

theorem exists_ofJson_iff :
    (∃ o, ofJson text = .ok o) ↔
      (∀ m ∈ ms, ∃ k : Key, k.Names m) ∧ ms.Pairwise Member.Apart ∧
        ∀ m ∈ ms, ∃ b, SwitchText lower m.value b := by
  have hreads := exists_readsMembers_iff (p := {}) hlower h.correct
  simp only [get_start, and_true] at hreads
  rw [← hreads]
  constructor
  · rintro ⟨o, ho⟩
    obtain ⟨q, hq, -⟩ := (ofJson_eq_ok_iff hlower h).1 ho
    exact ⟨q, hq⟩
  · rintro ⟨q, hq⟩
    obtain ⟨o, ho, -⟩ := finish_eq q
    exact ⟨o, (ofJson_eq_ok_iff hlower h).2 ⟨q, hq, ho⟩⟩

variable {o : Options} (ho : ofJson text = .ok o) {k : Key}

include ho

/-- Options are what the members say, and otherwise have their defaults. -/
theorem exists_get_ofJson :
    ∃ given : Option Bool, o.get k = given.getD (({} : Options).get k) ∧
      ∀ b, given = some b ↔ ∃ m ∈ ms, k.Names m ∧ SwitchText lower m.value b := by
  obtain ⟨q, hq, hfinish⟩ := (ofJson_eq_ok_iff hlower h).1 ho
  obtain ⟨o', ho', hget⟩ := finish_eq q
  obtain rfl : o = o' := Except.ok.inj (hfinish.symm.trans ho')
  refine ⟨q.get k, hget k, fun b => ?_⟩
  rw [get_readsMembers_iff hlower h.correct hq, get_start]
  simp

theorem get_ofJson_of_mem (hm : m ∈ ms) (hname : k.Names m) {b : Bool}
    (hb : SwitchText lower m.value b) : o.get k = b := by
  obtain ⟨given, hget, hgiven⟩ := exists_get_ofJson hlower h ho
  rw [hget, (hgiven b).2 ⟨m, hm, hname, hb⟩, Option.getD_some]

theorem get_ofJson_of_absent (habsent : ∀ m ∈ ms, ¬ k.Names m) :
    o.get k = ({} : Options).get k := by
  obtain ⟨given, hget, hgiven⟩ := exists_get_ofJson hlower h ho
  cases given with
  | none => exact hget
  | some b =>
    obtain ⟨m, hm, hname, -⟩ := (hgiven b).1 rfl
    exact absurd hname (habsent m hm)

end

/-- Neither the order of the members nor the blanks between them matter. -/
theorem toOption_ofJson_perm {text text' : String} {ms' : List Member}
    (h : ObjectText ms text.toList) (h' : ObjectText ms' text'.toList) (hperm : ms'.Perm ms) :
    (ofJson text').toOption = (ofJson text).toOption := by
  have hiff : (∃ o, ofJson text' = .ok o) ↔ ∃ o, ofJson text = .ok o := by
    rw [exists_ofJson_iff hlower h', exists_ofJson_iff hlower h]
    simp only [hperm.mem_iff, hperm.pairwise_iff Member.Apart.symm]
  cases hread : ofJson text with
  | error fault =>
    cases hread' : ofJson text' with
    | error fault' => rfl
    | ok o' =>
      obtain ⟨o, ho⟩ := hiff.1 ⟨o', hread'⟩
      rw [hread] at ho
      cases ho
  | ok o =>
    obtain ⟨o', hread'⟩ := hiff.2 ⟨o, hread⟩
    obtain ⟨-, -, hvalues⟩ := (exists_ofJson_iff hlower h).1 ⟨o, hread⟩
    have hsame : o' = o := by
      refine ext_get fun k => ?_
      by_cases hgiven : ∃ m ∈ ms, k.Names m
      · obtain ⟨m, hm, hname⟩ := hgiven
        obtain ⟨b, hb⟩ := hvalues m hm
        rw [get_ofJson_of_mem hlower h hread hm hname hb,
          get_ofJson_of_mem hlower h' hread' (hperm.mem_iff.2 hm) hname hb]
      · have habsent : ∀ m ∈ ms, ¬ k.Names m := fun m hm hname => hgiven ⟨m, hm, hname⟩
        rw [get_ofJson_of_absent hlower h hread habsent,
          get_ofJson_of_absent hlower h' hread' fun m hm => habsent m (hperm.mem_iff.1 hm)]
    rw [hread', hsame]

end

theorem value_ofText_of_fault {text : String} {fault : Fault} (h : ofJson text = .error fault)
    {τ σ ι : Type} (oracle : Oracle τ σ ι) (f : File) :
    (Report.ofText oracle (some text) f).value = .error (.options fault) := by
  rw [Report.ofText, Option.elim_some, h]
  rfl

/-- **Which options are accepted.**  The text of an object has options if every key is one of the
three, no key comes twice and every value stands for a boolean, and only then.  Each option is then
what its member says, or its default if there is none.  Otherwise the fault is one of the options.
Another order of the members or other blanks make no difference. -/
theorem ofJson_object {lower : List Char → List Char} (hlower : Text.Lowering lower)
    {ms : List Member} {text : String} (h : ObjectText ms text.toList) :
    ((∃ o, ofJson text = .ok o) ↔
      (∀ m ∈ ms, ∃ k : Key, k.Names m) ∧ ms.Pairwise Member.Apart ∧
        ∀ m ∈ ms, ∃ b, SwitchText lower m.value b) ∧
    (∀ o, ofJson text = .ok o → ∀ k : Key,
      (∀ m ∈ ms, k.Names m → ∀ b, SwitchText lower m.value b → o.get k = b) ∧
        ((∀ m ∈ ms, ¬ k.Names m) → o.get k = ({} : Options).get k)) ∧
    (∀ fault, ofJson text = .error fault →
      ∀ {τ σ ι : Type} (oracle : Oracle τ σ ι) (f : File),
        (Report.ofText oracle (some text) f).value = .error (.options fault)) ∧
    ∀ ms' text', ms'.Perm ms → ObjectText ms' text'.toList →
      (ofJson text').toOption = (ofJson text).toOption := by
  refine ⟨exists_ofJson_iff hlower h, fun o ho k => ⟨?_, ?_⟩, ?_, ?_⟩
  · intro m hm hname b hb
    exact get_ofJson_of_mem hlower h ho hm hname hb
  · exact get_ofJson_of_absent hlower h ho
  · intro fault hfault τ σ ι oracle f
    exact value_ofText_of_fault hfault oracle f
  · intro ms' text' hperm h'
    exact toOption_ofJson_perm hlower h h' hperm

/-- A key with an escape, a word between blanks of two kinds, and a list that is no switch. -/
theorem ofJson_object_escaped :
    (∃ o, ofJson "\x7b\"\\u0069solateFailures\" : \" OFF\\u00a0\" ,\n\"skipAnnotated\":true\x7d" =
        .ok o ∧
      o.get .isolateFailures = false ∧ o.get .includeAnonymous = true ∧
        o.get .skipAnnotated = true) ∧
    ∀ o, ofJson "\x7b\"skipAnnotated\":[1e999]\x7d" ≠ .ok o := by
  have hkey : Spells "\\u0069solateFailures".toList "isolateFailures".toList :=
    .unit (n := 0x69) (by decide) (by decide) (by decide) (Bare.spells (by decide))
  have hkey' : Spells "skipAnnotated".toList "skipAnnotated".toList := Bare.spells (by decide)
  have hbody : Spells " OFF\\u00a0".toList " OFF\u00a0".toList :=
    .plain (by decide) (by decide) (by decide) (.plain (by decide) (by decide) (by decide)
      (.plain (by decide) (by decide) (by decide) (.plain (by decide) (by decide) (by decide)
        (.unit (n := 0xa0) (by decide) (by decide) (by decide) .nil))))
  have hspace : Blank [' '] := by decide
  have hline : Blank ['\n'] := by decide
  have hnumber : NumberText "1e999".toList :=
    @NumberText.mk [] ['1'] [] "e999".toList (by decide)
      (.digits (by decide) (by decide)) .absent
      (@ExponentText.digits 'e' [] "999".toList (by decide) (by decide) (by decide))
  have hlower := Text.lowering_map_toLower
  constructor
  · have hobject : ObjectText
        [⟨"\\u0069solateFailures".toList, "\" OFF\\u00a0\"".toList⟩,
          ⟨"skipAnnotated".toList, "true".toList⟩]
        "\x7b\"\\u0069solateFailures\" : \" OFF\\u00a0\" ,\n\"skipAnnotated\":true\x7d".toList :=
      .members blank_nil
        (.more (.mk blank_nil hkey.stringText hspace hspace (.string hbody.stringText) hspace)
          (.last (.mk hline hkey'.stringText blank_nil blank_nil (.bool true) blank_nil)))
        blank_nil
    have htrims : Text.Trims " OFF\u00a0".toList "OFF".toList := Text.trims_iff.2 (by decide)
    have hoff : SwitchText (List.map Char.toLower) "\" OFF\\u00a0\"".toList false :=
      .word hbody htrims (by decide)
    have hon : SwitchText (List.map Char.toLower) "true".toList true := .literal true
    obtain ⟨haccepts, hgets, -, -⟩ := ofJson_object hlower hobject
    have hapart : Member.Apart ⟨"\\u0069solateFailures".toList, "\" OFF\\u00a0\"".toList⟩
        ⟨"skipAnnotated".toList, "true".toList⟩ := fun s hs hs' =>
      absurd ((hs.unique hkey).symm.trans (hs'.unique hkey')) (by decide)
    obtain ⟨o, ho⟩ := haccepts.2 (by
      simp only [List.forall_mem_cons, List.pairwise_cons]
      exact ⟨⟨⟨.isolateFailures, hkey⟩, ⟨.skipAnnotated, hkey'⟩, nofun⟩,
        ⟨⟨hapart, nofun⟩, nofun, .nil⟩, ⟨_, hoff⟩, ⟨_, hon⟩, nofun⟩)
    refine ⟨o, ho, ?_, ?_, ?_⟩
    · exact (hgets o ho .isolateFailures).1 _ List.mem_cons_self hkey _ hoff
    · refine (hgets o ho .includeAnonymous).2 (List.forall_mem_cons.2 ⟨?_, ?_⟩)
      · exact fun hname => absurd (Spells.unique hname hkey) (by decide)
      · exact List.forall_mem_singleton.2 fun hname =>
          absurd (Spells.unique hname hkey') (by decide)
    · exact (hgets o ho .skipAnnotated).1 _ (.tail _ List.mem_cons_self) hkey' _ hon
  · have hobject : ObjectText [⟨"skipAnnotated".toList, "[1e999]".toList⟩]
        "\x7b\"skipAnnotated\":[1e999]\x7d".toList :=
      .members blank_nil
        (.last (.mk blank_nil hkey'.stringText blank_nil blank_nil
          (.list (.last blank_nil (.number hnumber) blank_nil)) blank_nil))
        blank_nil
    intro o ho
    obtain ⟨-, -, hvalues⟩ := (ofJson_object hlower hobject).1.1 ⟨o, ho⟩
    obtain ⟨b, hb⟩ := hvalues _ List.mem_cons_self
    exact absurd (head_of_switchText hb) (by decide)

end Options

end ReturnHints
