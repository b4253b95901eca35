import ReturnHints.Proofs.Session.Nesting
import ReturnHints.Proofs.Session.Search

/-!
# Where the names of nodes come from

As long as no call says itself which node is a name, a name is always a token that was placed under
the innermost open node and noted there by the same call.  Other nodes may be opened, named and
closed before that node gets another name, and the last one counts:

    s.namings calls : the names given, each with its node, its text and its token
    Named gs s : the name of a node is the token of the last naming in gs that is for it
    Named gs s → Turn s c r u → Named (gs ++ the naming by c, if there is one) u       (Named.turn)
-/

namespace ReturnHints

/-! ## Names in an arena -/

namespace Arena

variable {a b : Arena} {p c : NodeId}

theorem name?_add (a : Arena) {n : Node} (hn : n.name = none) (i : NodeId) :
    (a.add n).name? i = a.name? i := by
  rw [name?, name?, node?_add]
  split
  · next hi =>
    rw [hi, node?_eq_none_iff.2 (Nat.le_refl _)]
    exact hn
  · rfl

theorem name?_attach? (hb : a.attach? p c = some b) (i : NodeId) : b.name? i = a.name? i := by
  rw [name?, name?, node?_attach? hb]
  cases a.node? i <;> rfl

theorem name?_rename (a : Arena) (hp : p < a.size) (name : Option NodeId) (i : NodeId) :
    (a.modify p fun n => { n with name }).name? i = if i = p then name else a.name? i := by
  rw [name?, name?, node?_modify]
  by_cases hi : i = p
  · obtain ⟨n, hn⟩ := exists_node? hp
    rw [if_pos hi.symm, if_pos hi, hi, hn]
    rfl
  · rw [if_neg (Ne.symm hi), if_neg hi]

end Arena

namespace Session

variable {s u : Session} {c : Call} {r : Except BuildError (Option NodeId)} {n : Node}
  {p k : Nat} {rest : List NodeId} {text : String}

theorem name?_plant (s : Session) (hn : n.name = none) (i : NodeId) :
    (s.plant n).arena.name? i = s.arena.name? i := by
  rcases arena_plant_cases s n with h | ⟨p, h⟩
  · rw [h, Arena.name?_add s.arena hn]
  · rw [Arena.name?_attach? h, Arena.name?_add s.arena hn]

theorem name?_fitted (a : Arena) (j i : NodeId) : (fitted a j).name? i = a.name? i := by
  unfold fitted
  split
  · rfl
  · rw [Arena.name?, Arena.name?, Arena.node?_modify]
    split
    · cases a.node? i <;> rfl
    · rfl

/-! ## Namings -/

/-- A name given by a call: the node that gets it, the text that was looked for, and the token. -/
structure Naming where
  node : NodeId
  text : String
  token : NodeId
deriving DecidableEq

/-- The name that a call has given with this answer, to the innermost open node. -/
def naming? (s : Session) (c : Call) (r : Except BuildError (Option NodeId)) : Option Naming :=
  match c, s.openNodes, r with
  | .name text, node :: _, .ok (some token) => some { node, text, token }
  | _, _, _ => none

/-- The names given in the course of some calls, in their order. -/
def namings (s : Session) : List Call → List Naming
  | [] => []
  | c :: calls => (s.naming? c (s.call c).1).toList ++ (s.call c).2.namings calls

/-- The last name given to a node. -/
def lastNaming? (gs : List Naming) (n : NodeId) : Option Naming :=
  (gs.filter (·.node = n)).getLast?

theorem namings_snoc (s : Session) (calls : List Call) (c : Call) :
    s.namings (calls ++ [c]) =
      s.namings calls ++ ((s.after calls).naming? c ((s.after calls).call c).1).toList := by
  induction calls generalizing s with
  | nil => simp [namings, after, run]
  | cons d calls ih =>
    rw [List.cons_append, namings, ih, namings, List.append_assoc]
    rfl

theorem naming?_error (s : Session) (c : Call) (err : BuildError) :
    s.naming? c (.error err) = none := by
  unfold naming?
  split
  · next h => cases h
  · rfl

theorem naming?_eq_some {g : Naming} (h : s.naming? c r = some g) :
    c = .name g.text ∧ s.openNodes.head? = some g.node ∧ r = .ok (some g.token) := by
  unfold naming? at h
  split at h
  · next hopen =>
    cases h
    exact ⟨rfl, by rw [hopen]; rfl, rfl⟩
  · cases h

theorem lastNaming?_append (gs hs : List Naming) (n : NodeId) :
    lastNaming? (gs ++ hs) n = (lastNaming? hs n).or (lastNaming? gs n) := by
  rw [lastNaming?, List.filter_append, List.getLast?_append]
  rfl

theorem lastNaming?_snoc (gs : List Naming) (g : Naming) (n : NodeId) :
    lastNaming? (gs ++ [g]) n = if n = g.node then some g else lastNaming? gs n := by
  rw [lastNaming?_append]
  by_cases hn : n = g.node
  · simp [lastNaming?, hn]
  · simp [lastNaming?, hn, Ne.symm hn]

theorem lastNaming?_eq_none_iff {gs : List Naming} {n : NodeId} :
    lastNaming? gs n = none ↔ ∀ g ∈ gs, g.node ≠ n := by
  simp [lastNaming?]

theorem lastNaming?_eq_some {gs : List Naming} {n : NodeId} {g : Naming}
    (h : lastNaming? gs n = some g) : g ∈ gs ∧ g.node = n := by
  obtain ⟨hmem, hnode⟩ := List.mem_filter.1 (List.mem_of_getLast? h)
  exact ⟨hmem, of_decide_eq_true hnode⟩

/-- The last name given to a node splits the calls at the one that has given it. -/
theorem exists_call_of_lastNaming? {calls : List Call} {n : NodeId} {g : Naming}
    (h : lastNaming? (s.namings calls) n = some g) :
    ∃ before later, calls = before ++ .name g.text :: later ∧
      (s.after before).openNodes.head? = some n ∧
      ((s.after before).call (.name g.text)).1 = .ok (some g.token) ∧
      ∀ g' ∈ (s.after (before ++ [.name g.text])).namings later, g'.node ≠ n := by
  induction calls generalizing s with
  | nil => cases h
  | cons c calls ih =>
    rw [namings, lastNaming?_append] at h
    cases hlast : lastNaming? ((s.call c).2.namings calls) n with
    | some g' =>
      obtain rfl : g' = g := by simpa [hlast] using h
      obtain ⟨before, later, rfl, hcall⟩ := ih hlast
      exact ⟨c :: before, later, rfl, hcall⟩
    | none =>
      -- no later call names the node, so it is this one
      rw [hlast, Option.none_or] at h
      obtain ⟨hmem, rfl⟩ := lastNaming?_eq_some h
      obtain ⟨rfl, hopen, hanswer⟩ := naming?_eq_some (Option.mem_toList.1 hmem)
      exact ⟨[], calls, rfl, hopen, hanswer, lastNaming?_eq_none_iff.1 hlast⟩

/-! ## What a call does to names -/

/-- The token of the naming is closed, an identifier under the node, and covers the text. -/
def Bears (s : Session) (g : Naming) : Prop :=
  s.arena.kind? g.token = some .identifier ∧ s.arena.parent? g.token = some g.node ∧
    ∃ stop, s.Stands g.text g.token stop

theorem Bears.turn {g : Naming} (h : s.Bears g) (ht : Turn s c r u) : u.Bears g := by
  obtain ⟨hkind, hparent, stop, hstands⟩ := h
  have hstill := hstands.turn ht
  obtain ⟨hclosed, tok, htok, _⟩ := hstands
  obtain ⟨hkeep, _⟩ := ht.keeps htok hclosed
  refine ⟨?_, ?_, stop, hstill⟩
  · rw [Arena.kind?, hkeep, ← htok]
    exact hkind
  · rw [Arena.parent?, hkeep, ← htok]
    exact hparent

/-- The answer to a name is a new node. -/
theorem Turn.size_eq_of_name {i : NodeId} (ht : Turn s (.name text) r u) (hr : r = .ok (some i)) :
    s.arena.size = i := by
  cases ht with
  | refused => cases hr
  | surplus => cases hr
  | placed => exact Option.some.inj (Except.ok.inj hr)

/-- A name that was found is a token under the innermost open node. -/
theorem Turn.bears {i : NodeId} (ht : Turn s (.name text) (.ok (some i)) u) (h : s.Sound k)
    (hopen : s.openNodes = p :: rest) : u.Bears { node := p, text, token := i } := by
  have hstands := (ht.stands h rfl).1
  obtain ⟨k', hsound⟩ := ht.exists_sound h
  cases ht with
  | @placed _ n hn hclosed =>
    obtain ⟨kind, start, stop, rfl, hkind, _, _⟩ := exists_of_asked? hn
    obtain rfl := Option.some.inj hkind
    have hsame := sameLinks_settle (s.plant { kind := .identifier, start, stop }) s.arena.size stop
      (.name text)
    refine ⟨?_, ?_, _, hstands⟩
    · rw [hsame.kind?, kind?_plant, if_pos rfl]
    · refine hsound.numbered.isChild_iff.1 ?_
      rw [Arena.IsChild, hsame.children, children_plant h rfl rfl, if_pos (by rw [hopen]; rfl)]
      exact List.mem_append_right _ (List.mem_singleton_self _)

/-- A call gives a name and places its token, or leaves all names as they are. -/
theorem Turn.names (ht : Turn s c r u) (h : s.Sound k) (hc : ∀ name, c ≠ .setName name) :
    (s.naming? c r = none ∧ ∀ i, u.arena.name? i = s.arena.name? i) ∨
    ∃ g, s.naming? c r = some g ∧ u.Bears g ∧
      ∀ i, u.arena.name? i = if i = g.node then some g.token else s.arena.name? i := by
  cases ht with
  | refused => exact .inl ⟨naming?_error s c _, fun _ => rfl⟩
  | surplus hn =>
    obtain ⟨kind, start, stop, rfl, _⟩ := exists_of_asked? hn
    exact .inl ⟨naming?_error s c _, Arena.name?_add s.arena rfl⟩
  | @placed _ n hn hclosed =>
    have hturn := Turn.placed hn hclosed
    obtain ⟨kind, start, stop, rfl, _⟩ := exists_of_asked? hn
    cases c with
    | name text =>
      cases hopen : s.openNodes with
      | nil =>
        rw [asked?, if_pos hopen] at hn
        cases hn
      | cons p rest =>
        refine .inr ⟨⟨p, text, s.arena.size⟩, ?_, hturn.bears h hopen, fun i => ?_⟩
        · simp only [naming?, hopen]
        · have hp : p < (s.plant { kind, start, stop }).arena.size := by
            rw [size_plant, h.size_of_open hopen]
            exact Nat.lt_succ_of_lt (h.open_lt p (by rw [hopen]; exact List.mem_cons_self))
          rw [← name?_plant s (n := { kind, start, stop }) rfl, ← Arena.name?_rename _ hp]
          simp only [settle, setName, openNodes_plant, hopen]
    | start kind => exact .inl ⟨rfl, name?_plant s rfl⟩
    | token kind start stop => exact .inl ⟨rfl, name?_plant s rfl⟩
    | lexeme kind text => exact .inl ⟨rfl, name?_plant s rfl⟩
    | finish => cases hn
    | setName name => cases hn
  | closed => exact .inl ⟨rfl, name?_fitted s.arena _⟩
  | @named name => exact absurd rfl (hc name)

/-! ## Names in the course of a session -/

/-- The names in a session are those that were given last, and their tokens are in place. -/
structure Named (gs : List Naming) (s : Session) : Prop where
  sound : ∃ k, s.Sound k
  name?_eq : ∀ i, s.arena.name? i = (lastNaming? gs i).map (·.token)
  bears : ∀ g ∈ gs, s.Bears g

theorem Named.begin (fileName source : String) : Named [] (begin fileName source) where
  sound := ⟨0, .begin fileName source⟩
  name?_eq _ := rfl
  bears _ hg := absurd hg List.not_mem_nil

theorem Named.turn {gs : List Naming} (h : Named gs s) (ht : Turn s c r u)
    (hc : ∀ name, c ≠ .setName name) : Named (gs ++ (s.naming? c r).toList) u := by
  obtain ⟨k, hsound⟩ := h.sound
  have hbears : ∀ g ∈ gs, u.Bears g := fun g hg => (h.bears g hg).turn ht
  rcases ht.names hsound hc with ⟨hnone, hname⟩ | ⟨g, hsome, hg, hname⟩
  · rw [hnone, Option.toList_none, List.append_nil]
    exact ⟨ht.exists_sound hsound, fun i => (hname i).trans (h.name?_eq i), hbears⟩
  · rw [hsome, Option.toList_some]
    refine ⟨ht.exists_sound hsound, fun i => ?_, fun g' hg' => ?_⟩
    · rw [hname, lastNaming?_snoc, h.name?_eq]
      split <;> rfl
    · rcases List.mem_append.1 hg' with hg' | hg'
      · exact hbears g' hg'
      · rw [List.mem_singleton.1 hg']
        exact hg

theorem named_after (fileName source : String) (calls : List Call)
    (hcalls : ∀ c ∈ calls, ∀ name, c ≠ .setName name) :
    Named ((begin fileName source).namings calls) ((begin fileName source).after calls) := by
  induction calls using List.reverseRecOn with
  | nil => exact .begin fileName source
  | append_singleton calls c ih =>
    rw [namings_snoc, after_snoc]
    refine (ih fun d hd => hcalls d (List.mem_append_left _ hd)).turn (turn_call _ c) ?_
    exact hcalls c (List.mem_append_right _ (List.mem_singleton_self c))

/-- **Where names come from.**  In a file from a session whose calls set no name by hand, the name
of a node is a child of it: the identifier that was placed by the last call to succeed in naming the
innermost open node while this was the one, and its text is what that call was given.  A node has no
name exactly when no such call succeeded. -/
theorem name?_file (fileName source : String) (calls : List Call)
    (hcalls : ∀ c ∈ calls, ∀ name, c ≠ .setName name) (f : File)
    (hf : ((begin fileName source).after calls).file = .ok f) :
    (∀ n m, f.arena.name? n = some m →
      m ∈ f.arena.children n ∧ f.arena.parent? m = some n ∧ f.arena.kind? m = some .identifier ∧
      ∃ before text later, calls = before ++ .name text :: later ∧
        ((begin fileName source).after before).openNodes.head? = some n ∧
        (((begin fileName source).after before).call (.name text)).1 = .ok (some m) ∧
        ((begin fileName source).after before).arena.size = m ∧
        (∀ g ∈ ((begin fileName source).after (before ++ [.name text])).namings later,
          g.node ≠ n) ∧
        f.textOf? m = some text) ∧
    ∀ n, f.arena.name? n = none ↔ ∀ g ∈ (begin fileName source).namings calls, g.node ≠ n := by
  obtain ⟨⟨k, hsound⟩, hname, hbears⟩ := named_after fileName source calls hcalls
  obtain ⟨harena, _⟩ := file_eq_ok hf
  rw [harena]
  refine ⟨fun n m hm => ?_, fun n => ?_⟩
  · rw [hname] at hm
    obtain ⟨g, hg, rfl⟩ := Option.map_eq_some_iff.1 hm
    obtain ⟨hmem, rfl⟩ := lastNaming?_eq_some hg
    obtain ⟨hkind, hparent, stop, hstands⟩ := hbears g hmem
    obtain ⟨before, later, hsplit, hopen, hanswer, hlater⟩ := exists_call_of_lastNaming? hg
    have hplaced : ((begin fileName source).after before).arena.size = g.token :=
      (turn_call _ _).size_eq_of_name hanswer
    exact ⟨hsound.numbered.isChild_iff.2 hparent, hparent, hkind, before, g.text, later, hsplit,
      hopen, hanswer, hplaced, hlater, hstands.textOf? hf⟩
  · rw [hname, Option.map_eq_none_iff, lastNaming?_eq_none_iff]

/-- A function is named twice, and a function inside it in between; the last call looks for a text
that is not there any more. -/
theorem name?_file_renamed :
    let calls : List Call := [.name "f", .start .functionDeclaration, .name "f",
      .start .functionExpression, .name "g", .finish, .name "h", .name "f", .finish]
    let f : File := ⟨"a.ts", "f g h", ((begin "a.ts" "f g h").after calls).arena, 0⟩
    ((begin "a.ts" "f g h").after calls).file = .ok f ∧ f.arena.name? 0 = some 4 ∧
      f.arena.parent? 4 = some 0 ∧ f.textOf? 4 = some "h" ∧ f.arena.name? 4 = none := by
  intro calls f
  have hf : ((begin "a.ts" "f g h").after calls).file = .ok f := by decide +kernel
  have hcalls : ∀ c ∈ calls, ∀ name, c ≠ .setName name := by simp [calls]
  obtain ⟨hnamed, hnone⟩ := name?_file "a.ts" "f g h" calls hcalls f hf
  have hname : f.arena.name? 0 = some 4 := by decide +kernel
  obtain ⟨_, hparent, _⟩ := hnamed 0 4 hname
  exact ⟨hf, hname, hparent, by decide +kernel, (hnone 4).2 (by decide +kernel)⟩

end Session

end ReturnHints
