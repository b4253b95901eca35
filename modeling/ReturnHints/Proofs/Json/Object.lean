import ReturnHints.Proofs.Json.Grammar

/-!
# Objects are read member by member

The members of an object are read one after the other into a state, each from behind the quote of
its key, wherever blanks stand.  So what comes of an object is told by what comes of each member:

    ReadsMember member p m q      the member m turns the state p into q
    ReadsMembers member p ms q    the members ms do so, in their order
    RunOf member p ms rest x      x is what comes of reading ms in front of rest
    BracesText ms ('{' :: inner) → RunOf member p ms rest (members member p (inner ++ rest))
                                                                                  (runOf_braces)

The loop behind the first comma is gone through once (`runOf_moreMembers`), for any reader of
members: one that skips them, one that fills a record, or one that refuses some of them.
-/

namespace ReturnHints.Json

/-! ## What follows a value -/

/-- What can follow a value: nothing, a blank, a comma or a closing bracket. -/
def Follows (rest : List Char) : Prop :=
  ∀ c ∈ rest.head?, isSpace c = true ∨ c = ',' ∨ c = ']' ∨ c = '}'

theorem follows_nil : Follows [] := by
  intro c hc
  cases hc

theorem follows_comma (rest : List Char) : Follows (',' :: rest) := by
  intro c hc
  obtain rfl := Option.some.inj hc
  exact .inr (.inl rfl)

theorem follows_bracket (rest : List Char) : Follows (']' :: rest) := by
  intro c hc
  obtain rfl := Option.some.inj hc
  exact .inr (.inr (.inl rfl))

theorem follows_brace (rest : List Char) : Follows ('}' :: rest) := by
  intro c hc
  obtain rfl := Option.some.inj hc
  exact .inr (.inr (.inr rfl))

theorem Follows.blank {ws rest : List Char} (hrest : Follows rest) (hws : Blank ws) :
    Follows (ws ++ rest) := by
  intro c hc
  cases ws with
  | nil => exact hrest c hc
  | cons w ws =>
    obtain rfl := Option.some.inj hc
    exact .inl (hws w List.mem_cons_self)

/-- The reader reads `a` from the value, whatever stands around it. -/
def ReadsIn {α : Type} (read : Reader α) (value : List Char) (a : α) : Prop :=
  ∀ ⦃ws rest : List Char⦄, Blank ws → Follows rest → read (ws ++ value ++ rest) = .ok (a, rest)

/-! ## Braces, commas and colons -/

section

variable {σ : Type} (member : σ → Reader σ) (n : Nat) (s : σ) {ws ws' : List Char}
  (hws : Blank ws) (hws' : Blank ws') (rest : List Char)

include hws

theorem colon_blank : colon (ws ++ ':' :: rest) = .ok rest := by
  rw [colon, skipSpaces_blank hws (by decide)]
  rfl

theorem members_blank_close : members member s (ws ++ '}' :: rest) = .ok (s, rest) := by
  rw [members, skipSpaces_blank hws (by decide)]
  rfl

theorem members_blank_quote :
    members member s (ws ++ '"' :: rest) =
      member s rest >>= fun (s, rest) => moreMembers member (rest.length + 1) s rest := by
  rw [members, skipSpaces_blank hws (by decide)]
  rfl

theorem moreMembers_blank_close :
    moreMembers member (n + 1) s (ws ++ '}' :: rest) = .ok (s, rest) := by
  rw [moreMembers, skipSpaces_blank hws (by decide)]
  rfl

include hws' in
theorem moreMembers_blank_comma :
    moreMembers member (n + 1) s (ws ++ ',' :: (ws' ++ '"' :: rest)) =
      member s rest >>= fun (s, rest) => moreMembers member n s rest := by
  have hquote : skipSpaces (ws' ++ '"' :: rest) = '"' :: rest :=
    skipSpaces_blank hws' (by decide) rest
  rw [moreMembers, skipSpaces_blank hws (by decide)]
  simp only [hquote]

end

/-! ## Members -/

variable {σ : Type} {member : σ → Reader σ} {p q : σ} {m : Member} {ms : List Member}
  {text body value ws rest : List Char} {n : Nat}

/-- A member from behind the quote of its key on, and what follows its value. -/
inductive MemberBody (m : Member) : List Char → List Char → Prop
  | mk {ws ws' rest} : Blank ws → Blank ws' → Follows rest →
      MemberBody m (m.key ++ '"' :: (ws ++ ':' :: (ws' ++ m.value ++ rest))) rest

theorem MemberText.exists_body (h : MemberText m text) (hrest : Follows rest) :
    ∃ ws body ws', text ++ rest = ws ++ '"' :: body ∧ Blank ws ∧ Blank ws' ∧
      MemberBody m body (ws' ++ rest) := by
  cases h with
  | @mk _ ws₁ ws₂ ws₃ ws₄ hws₁ _ hws₂ hws₃ _ hws₄ =>
    refine ⟨ws₁, _, ws₄, ?_, hws₁, hws₄, .mk hws₂ hws₃ (hrest.blank hws₄)⟩
    simp

/-- At this member the reader turns `p` into `q`, wherever blanks stand in it. -/
def ReadsMember (member : σ → Reader σ) (p : σ) (m : Member) (q : σ) : Prop :=
  ∀ ⦃body rest : List Char⦄, MemberBody m body rest → member p body = .ok (q, rest)

/-- At these members the reader turns `p` into `q`, in their order. -/
inductive ReadsMembers (member : σ → Reader σ) : σ → List Member → σ → Prop
  | nil {p : σ} : ReadsMembers member p [] p
  | cons {p q q' : σ} {m : Member} {ms : List Member} : ReadsMember member p m q →
      ReadsMembers member q ms q' → ReadsMembers member p (m :: ms) q'

/-- What the reader makes of the member, if anything, does not depend on what stands around it. -/
def LocalAt (member : σ → Reader σ) (m : Member) : Prop :=
  ∀ ⦃p q : σ⦄ ⦃body rest tail : List Char⦄, MemberBody m body rest →
    member p body = .ok (q, tail) → tail = rest ∧ ReadsMember member p m q

/-! ## One after the other -/

/-- What comes of reading the members in front of `rest`: if they can be read, the state that they
lead to, and for a local reader nothing is a success but this. -/
structure RunOf (member : σ → Reader σ) (p : σ) (ms : List Member) (rest : List Char)
    (result : Except Fault (σ × List Char)) : Prop where
  reads : ∀ {q}, ReadsMembers member p ms q → result = .ok (q, rest)
  only : (∀ m ∈ ms, LocalAt member m) → ∀ {q tail}, result = .ok (q, tail) →
    tail = rest ∧ ReadsMembers member p ms q

theorem RunOf.nil : RunOf member p [] rest (.ok (p, rest)) where
  reads := by
    rintro q ⟨⟩
    rfl
  only := by
    intro _ q tail h
    cases h
    exact ⟨rfl, .nil⟩

theorem RunOf.cons {behind : List Char} {next : σ × List Char → Except Fault (σ × List Char)}
    (hbody : MemberBody m body behind) (hnext : ∀ q, RunOf member q ms rest (next (q, behind))) :
    RunOf member p (m :: ms) rest (member p body >>= next) where
  reads := by
    rintro q (_ | ⟨hfirst, hmore⟩)
    rw [hfirst hbody]
    exact (hnext _).reads hmore
  only := by
    intro hlocal q tail hread
    obtain ⟨hm, hms⟩ := List.forall_mem_cons.1 hlocal
    obtain ⟨⟨p', rest'⟩, hfirst, hmore⟩ := bind_eq_ok_iff.1 hread
    obtain ⟨rfl, hfirst⟩ := hm hbody hfirst
    obtain ⟨htail, hmore⟩ := (hnext p').only hms hmore
    exact ⟨htail, .cons hfirst hmore⟩

/-- The members behind the first one, each behind its comma. -/
inductive FurtherText : List Member → List Char → Prop
  | nil : FurtherText [] []
  | cons {m text ms more} : MemberText m text → FurtherText ms more →
      FurtherText (m :: ms) (',' :: (text ++ more))

theorem MembersText.exists_further : ∀ {ms : List Member} {text : List Char}, MembersText ms text →
    ∃ m ms' first more, ms = m :: ms' ∧ text = first ++ more ∧ MemberText m first ∧
      FurtherText ms' more
  | _, _, .last hm => ⟨_, [], _, [], rfl, (List.append_nil _).symm, hm, .nil⟩
  | _, _, .more hm hms => by
    obtain ⟨m', ms', first, more, rfl, rfl, hfirst, hmore⟩ := hms.exists_further
    exact ⟨_, _, _, _, rfl, rfl, hm, .cons hfirst hmore⟩

theorem FurtherText.follows (h : FurtherText ms text) (rest : List Char) :
    Follows (text ++ '}' :: rest) := by
  cases h with
  | nil => exact follows_brace rest
  | cons _ _ => exact follows_comma _

theorem FurtherText.length_le (h : FurtherText ms text) : ms.length ≤ text.length := by
  induction h with
  | nil => exact Nat.le_refl 0
  | cons _ _ ih =>
    simp only [List.length_cons, List.length_append]
    omega

/-- The loop reads the members behind the first one.  A bound on the steps is enough if it exceeds
their number. -/
theorem runOf_moreMembers (h : FurtherText ms text) (hws : Blank ws) (hn : ms.length < n)
    (rest : List Char) :
    RunOf member p ms rest (moreMembers member n p (ws ++ (text ++ '}' :: rest))) := by
  induction h generalizing n p ws with
  | nil =>
    rw [List.length_nil] at hn
    obtain ⟨n, rfl⟩ : ∃ k, n = k + 1 := ⟨n - 1, by omega⟩
    rw [List.nil_append, moreMembers_blank_close member n p hws]
    exact .nil
  | @cons m text ms more hm hmore ih =>
    rw [List.length_cons] at hn
    obtain ⟨n, rfl⟩ : ∃ k, n = k + 1 := ⟨n - 1, by omega⟩
    obtain ⟨ws₁, body, ws₂, hshape, hws₁, hws₂, hbody⟩ := hm.exists_body (hmore.follows rest)
    rw [List.cons_append, List.append_assoc, hshape, moreMembers_blank_comma member n p hws hws₁]
    exact .cons hbody fun q => ih hws₂ (by omega)

theorem runOf_members (h : MembersText ms text) (rest : List Char) :
    RunOf member p ms rest (members member p (text ++ '}' :: rest)) := by
  obtain ⟨m, ms, first, more, rfl, rfl, hm, hmore⟩ := h.exists_further
  obtain ⟨ws₁, body, ws₂, hshape, hws₁, hws₂, hbody⟩ := hm.exists_body (hmore.follows rest)
  rw [List.append_assoc, hshape, members_blank_quote member p hws₁]
  refine .cons hbody fun q => runOf_moreMembers hmore hws₂ ?_ rest
  have hlength := hmore.length_le
  simp only [List.length_append, List.length_cons]
  omega

/-- Behind its opening brace an object is read member by member. -/
theorem runOf_braces (member : σ → Reader σ) (p : σ) (h : BracesText ms value) (rest : List Char) :
    ∃ inner, value = '{' :: inner ∧ RunOf member p ms rest (members member p (inner ++ rest)) := by
  cases h with
  | @empty ws hws =>
    refine ⟨ws ++ ['}'], rfl, ?_⟩
    rw [List.append_assoc, List.singleton_append, members_blank_close member p hws]
    exact .nil
  | @members _ inside hmembers =>
    refine ⟨inside ++ ['}'], rfl, ?_⟩
    rw [List.append_assoc]
    exact runOf_members hmembers rest

/-! ## Records from objects -/

namespace Record

variable {π α : Type} {r : Record π α} {p q : π} {a : α} {tail : List Char}

theorem done_eq_ok_iff :
    read.done r (p, rest) = .ok (a, tail) ↔ tail = rest ∧ r.finish p = .ok a := by
  rw [read.done]
  split
  · next b hb =>
    rw [hb, Except.ok.injEq, Prod.mk.injEq, Except.ok.injEq, and_comm, eq_comm (a := rest)]
  · next cause hcause =>
    rw [hcause]
    simp

theorem exists_run (r : Record π α) (h : BracesText ms value) (hws : Blank ws) (rest : List Char) :
    ∃ result, RunOf r.member r.start ms rest result ∧
      r.read (ws ++ value ++ rest) = result >>= read.done r := by
  obtain ⟨inner, rfl, hrun⟩ := runOf_braces r.member r.start h rest
  refine ⟨_, hrun, ?_⟩
  rw [List.append_assoc, List.cons_append, read, skipSpaces_blank hws (by decide)]
  rfl

/-- A record is read from an object whose members lead to its state. -/
theorem readsIn_braces (h : BracesText ms value) (hread : ReadsMembers r.member r.start ms q)
    (hfinish : r.finish q = .ok a) : ReadsIn r.read value a := by
  intro ws rest hws _
  obtain ⟨result, hrun, heq⟩ := r.exists_run h hws rest
  rw [heq, hrun.reads hread]
  exact done_eq_ok_iff.2 ⟨rfl, hfinish⟩

end Record

/-! ## Whole texts -/

theorem readAll_of_readsIn {α : Type} {read : Reader α} {a : α} {text : String}
    {before behind : List Char} (h : ReadsIn read value a) (hbefore : Blank before)
    (hbehind : Blank behind) (htext : text.toList = before ++ value ++ behind) :
    readAll read text = .ok a := by
  have hfollows : Follows behind := by
    have := follows_nil.blank hbehind
    rwa [List.append_nil] at this
  rw [readAll, htext, h hbefore hfollows]
  show (if (skipSpaces behind).isEmpty then _ else _) = _
  rw [skipSpaces_all hbehind]
  rfl

end ReturnHints.Json
