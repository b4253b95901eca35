import ReturnHints.Proofs.Session.Growth

/-!
# What the transcript of a session tells

A transcript has every call of a session with its answer, also those that failed.  The tree, the
number of open nodes and whether a file comes out can all be read off it:

    the nodes placed have the numbers 0, 1, 2, …, in the order of the calls
    open nodes + nodes closed = nodes opened
    a file comes out  ↔  as many nodes were closed as opened, and there is one

and so can the functions that a walk over the file finds (`functionsBelow_file`).
-/

namespace ReturnHints.Session

variable {s : Session} {c : Call} {i k : Nat}

/-! ## Reading a transcript -/

/-- The node that a call has placed, with its kind. -/
def placed? (e : Call × Answer) : Option (Kind × NodeId) :=
  match e.1.kind?, e.2.result with
  | some kind, .ok (some i) => some (kind, i)
  | _, _ => none

/-- The nodes placed, in the order of the calls. -/
def placed (log : List (Call × Answer)) : List (Kind × NodeId) := log.filterMap placed?

/-- A call that has opened a node. -/
def opens : Call × Answer → Bool
  | (.start _, ⟨.ok _, _⟩) => true
  | _ => false

/-- A call that has closed a node. -/
def closes : Call × Answer → Bool
  | (.finish, ⟨.ok _, _⟩) => true
  | _ => false

/-- A call that would have made a second root. -/
def turnedAway : Call × Answer → Bool
  | (_, ⟨.error .multipleRoots, _⟩) => true
  | _ => false

theorem placed?_error (c : Call) (err : BuildError) (cursor : Nat) :
    placed? (c, ⟨.error err, cursor⟩) = none := by
  unfold placed?
  cases c.kind? <;> rfl

theorem opens_error (c : Call) (err : BuildError) (cursor : Nat) :
    opens (c, ⟨.error err, cursor⟩) = false ∧ closes (c, ⟨.error err, cursor⟩) = false := by
  cases c <;> exact ⟨rfl, rfl⟩

/-- A placing call opens its node if it is a start, and closes none. -/
theorem depth_settle (s : Session) (i : NodeId) (stop cursor : Nat) (hc : c.kind? ≠ none) :
    (s.settle i stop c).openNodes.length +
        (if closes (c, ⟨.ok (some i), cursor⟩) then 1 else 0) =
      s.openNodes.length + if opens (c, ⟨.ok (some i), cursor⟩) then 1 else 0 := by
  rcases settle_cases s i stop c with ⟨kind, rfl, h⟩ | ⟨hstart, b, _, _, h⟩
  · rw [h]
    rfl
  · rw [h]
    cases c with
    | start kind => exact absurd rfl (hstart kind)
    | finish => exact absurd rfl hc
    | setName name => exact absurd rfl hc
    | token kind start stop => rfl
    | lexeme kind text => rfl
    | name text => rfl

/-- A session and what its transcript says about it. -/
structure Recorded (log : List (Call × Answer)) (s : Session) : Prop where
  sound : s.Sound (placed log).length
  numbers : (placed log).map Prod.snd = List.range (placed log).length
  kinds : ∀ e ∈ placed log, s.arena.kind? e.2 = some e.1
  size_eq : s.arena.size = (placed log).length + log.countP turnedAway
  depth : s.openNodes.length + log.countP closes = log.countP opens

namespace Recorded

variable {log : List (Call × Answer)} {e : Call × Answer} {u : Session}

protected theorem begin (fileName text : String) : Recorded [] (begin fileName text) where
  sound := .begin fileName text
  numbers := rfl
  kinds _ h := by cases h
  size_eq := rfl
  depth := rfl

/-- A call that places nothing. -/
theorem keep (h : Recorded log s) (he : placed? e = none) (hu : u.Sound (placed log).length)
    (hkind : ∀ i kind, s.arena.kind? i = some kind → u.arena.kind? i = some kind)
    (hsize : u.arena.size = s.arena.size + if turnedAway e then 1 else 0)
    (hdepth : u.openNodes.length + (if closes e then 1 else 0) =
      s.openNodes.length + if opens e then 1 else 0) : Recorded (log ++ [e]) u := by
  have hplaced : placed (log ++ [e]) = placed log := by
    rw [placed, List.filterMap_append, List.filterMap_cons_none he, List.filterMap_nil,
      List.append_nil, placed]
  refine ⟨?_, ?_, ?_, ?_, ?_⟩
  · rw [hplaced]
    exact hu
  · rw [hplaced]
    exact h.numbers
  · rw [hplaced]
    exact fun d hd => hkind d.2 d.1 (h.kinds d hd)
  · rw [hplaced, hsize, h.size_eq, List.countP_append, List.countP_singleton]
    omega
  · rw [List.countP_append, List.countP_append, List.countP_singleton, List.countP_singleton,
      ← h.depth]
    omega

/-- A call that places the next node. -/
theorem grow {kind : Kind} (h : Recorded log s)
    (he : placed? e = some (kind, (placed log).length))
    (hu : u.Sound ((placed log).length + 1)) (hnew : u.arena.kind? (placed log).length = some kind)
    (hkind : ∀ i, i ≠ (placed log).length → u.arena.kind? i = s.arena.kind? i)
    (haway : turnedAway e = false) (hsize : u.arena.size = s.arena.size + 1)
    (hdepth : u.openNodes.length + (if closes e then 1 else 0) =
      s.openNodes.length + if opens e then 1 else 0) : Recorded (log ++ [e]) u := by
  have hplaced : placed (log ++ [e]) = placed log ++ [(kind, (placed log).length)] := by
    rw [placed, List.filterMap_append, List.filterMap_cons_some he, List.filterMap_nil, placed]
  have hlength : (placed (log ++ [e])).length = (placed log).length + 1 := by
    rw [hplaced, List.length_append, List.length_singleton]
  refine ⟨?_, ?_, ?_, ?_, ?_⟩
  · rw [hlength]
    exact hu
  · rw [hlength, hplaced, List.map_append, h.numbers, List.range_succ]
    rfl
  · rw [hplaced]
    intro d hd
    rcases List.mem_append.1 hd with hd | hd
    · have hlt : d.2 ∈ List.range (placed log).length := by
        rw [← h.numbers]
        exact List.mem_map_of_mem hd
      rw [hkind d.2 (Nat.ne_of_lt (List.mem_range.1 hlt))]
      exact h.kinds d hd
    · rw [List.mem_singleton.1 hd]
      exact hnew
  · rw [hlength, hsize, h.size_eq, List.countP_append, List.countP_singleton, haway]
    simp
    omega
  · rw [List.countP_append, List.countP_append, List.countP_singleton, List.countP_singleton,
      ← h.depth]
    omega

theorem turn {r : Except BuildError (Option NodeId)} (h : Recorded log s)
    (ht : Turn s c r u) : Recorded (log ++ [(c, ⟨r, u.cursor⟩)]) u := by
  cases ht with
  | @refused _ err hn herr =>
    obtain ⟨hopens, hcloses⟩ := opens_error c err s.cursor
    have haway : turnedAway (c, ⟨.error err, s.cursor⟩) = false := by
      cases err <;> first | rfl | exact absurd rfl herr
    refine h.keep (placed?_error c err s.cursor) h.sound (fun _ _ hk => hk) ?_ ?_
    · simp [haway]
    · simp [hopens, hcloses]
  | @surplus _ n hn hclosed =>
    obtain ⟨hopens, hcloses⟩ := opens_error c .multipleRoots s.cursor
    obtain ⟨hparent, hchildren, hspan⟩ := h.sound.fresh_of_asked? hn
    refine h.keep (placed?_error c _ s.cursor)
      (h.sound.surplus hclosed hparent hchildren hspan) ?_ ?_ ?_
    · exact fun i kind hk => Arena.kind?_add_of_some hk n
    · exact Arena.size_add s.arena n
    · simp [hopens, hcloses]
  | @placed _ n hn hclosed =>
    obtain ⟨kind, start, stop, rfl, hkind, _, _⟩ := exists_of_asked? hn
    have hk := h.sound.size_eq hclosed
    have hsound := h.sound.place hn hclosed
    rw [← hk] at hsound
    have hsame := sameLinks_settle (s.plant { kind, start, stop }) s.arena.size stop c
    refine h.grow (by rw [placed?, hkind, ← hk]) (hk ▸ hsound) ?_ ?_ rfl ?_ ?_
    · rw [hsame.kind?, kind?_plant, if_pos hk.symm]
    · intro i hi
      rw [hsame.kind?, kind?_plant, if_neg (hk ▸ hi)]
    · rw [hsame.size, size_plant]
    · rw [depth_settle _ _ _ _ (by simp [hkind]), openNodes_plant]
  | @closed i rest hopen =>
    have hsame := sameLinks_fitted s.arena i
    refine h.keep rfl (h.sound.close hopen) ?_ hsame.size ?_
    · exact fun j kind hk => (hsame.kind? j).trans hk
    · rw [hopen]
      rfl
  | @named name i rest hopen =>
    have hsame := Arena.sameLinks_modify s.arena i (f := fun n => { n with name })
      (fun _ => rfl) (fun _ => rfl) (fun _ => rfl)
    refine h.keep rfl (h.sound.rename i name) ?_ hsame.size rfl
    exact fun j kind hk => (hsame.kind? j).trans hk

end Recorded

theorem recorded (fileName text : String) (calls : List Call) :
    Recorded ((begin fileName text).transcript calls) ((begin fileName text).after calls) :=
  run_induction (.begin fileName text) (fun h ht => h.turn ht) calls

theorem text_after (fileName text : String) (calls : List Call) :
    ((begin fileName text).after calls).text = text :=
  run_induction (P := fun _ s => s.text = text) rfl (fun h ht => ht.text_eq.trans h) calls

/-! ## At every point of a session -/

theorem Sound.root_iff (h : s.Sound k) : s.root = some i ↔ i = 0 ∧ 0 < k := by
  rw [h.root_eq]
  split
  · next hk => simp [hk]
  · next hk =>
    constructor
    · intro hi
      exact ⟨(Option.some.inj hi).symm, Nat.pos_of_ne_zero hk⟩
    · rintro ⟨rfl, _⟩
      rfl

/-- A file comes out if and only if every node is closed and there is one. -/
theorem Sound.exists_file_iff (h : s.Sound k) :
    (∃ f, s.file = .ok f) ↔ s.openNodes = [] ∧ 0 < k := by
  unfold file
  by_cases hopen : s.openNodes = []
  · rw [if_neg (not_not_intro hopen), h.root_eq]
    by_cases hk : k = 0
    · simp [hk]
    · simp [hk, hopen, Nat.pos_of_ne_zero hk]
  · simp [hopen]

/-- What holds after any calls, those that failed included. -/
theorem session_at_every_point (fileName text : String) (calls : List Call) :
    let s := (begin fileName text).after calls
    let log := (begin fileName text).transcript calls
    -- the nodes placed are one tree, and those turned away stand alone
    (∀ r, s.root = some r → r = 0 ∧ ∃ k, 0 < k ∧ k = (placed log).length ∧
      s.arena.size = k + log.countP turnedAway ∧
      (s.arena.parent? 0 = none ∧ ∀ p, 0 ∉ s.arena.children p) ∧
      (∀ i, 0 < i → i < k → ∃ p < i, s.arena.parent? i = some p ∧
        (s.arena.children p).count i = 1 ∧ ∀ q, q ≠ p → i ∉ s.arena.children q) ∧
      (∀ p, (s.arena.children p).Pairwise (· < ·)) ∧
      ∀ i, k ≤ i → s.arena.parent? i = none ∧ s.arena.children i = [] ∧
        ∀ p, i ∉ s.arena.children p) ∧
    -- the open nodes lead down from the root along last children
    (s.openNodes = [] ∨ (∃ r, s.root = some r ∧ s.openNodes.getLast? = some r) ∧
      s.openNodes.IsChain fun i p => (s.arena.children p).getLast? = some i) ∧
    -- the innermost one refuses no new node
    (∀ kind start stop p rest, s.openNodes = p :: rest →
      ((s.arena.add { kind, start, stop }).attach? p s.arena.size).isSome) ∧
    (∀ i n, s.arena.node? i = some n →
      n.start ≤ Text.byteLength text.toList ∧ n.stop ≤ Text.byteLength text.toList) ∧
    s.openNodes.length + log.countP closes = log.countP opens ∧
    ((∃ f, s.file = .ok f) ↔ log.countP opens = log.countP closes ∧ placed log ≠ []) := by
  intro s log
  have h : Recorded log s := recorded fileName text calls
  have hlength : s.length = Text.byteLength text.toList := by
    rw [length, text_after]
  have hnum := h.sound.numbered
  refine ⟨?_, ?_, ?_, ?_, h.depth, ?_⟩
  · intro r hr
    obtain ⟨rfl, hpos⟩ := h.sound.root_iff.1 hr
    have h0 : ¬ (0 < 0 ∧ 0 < (placed log).length) := by omega
    refine ⟨rfl, (placed log).length, hpos, rfl, h.size_eq, ?_, ?_, hnum.increasing, ?_⟩
    · exact ⟨hnum.parent?_eq_none h0, hnum.not_mem_children h0⟩
    · exact fun i hi hk => hnum.exists_parent hi hk
    · intro i hi
      have hout : ¬ (0 < i ∧ i < (placed log).length) := fun hlt => Nat.not_lt.2 hi hlt.2
      exact ⟨hnum.parent?_eq_none hout, hnum.children_eq_nil hi, hnum.not_mem_children hout⟩
  · cases hopen : s.openNodes with
    | nil => exact .inl rfl
    | cons p rest =>
      obtain ⟨r, hr⟩ : ∃ r, (p :: rest).getLast? = some r :=
        Option.ne_none_iff_exists'.1 (by simp)
      have hr0 : r = 0 := h.sound.bottom r (by rw [hopen]; exact hr)
      refine .inr ⟨⟨r, h.sound.root_iff.2 ⟨hr0, h.sound.pos_of_open hopen⟩, hr⟩, ?_⟩
      rw [← hopen]
      exact h.sound.chain
  · intro kind start stop p rest hopen
    exact Option.isSome_iff_exists.2 (h.sound.exists_attach hopen rfl rfl)
  · intro i n hn
    rw [← hlength]
    exact h.sound.within i n hn
  · have hdepth := h.depth
    rw [h.sound.exists_file_iff, ← List.length_eq_zero_iff, ← List.length_pos_iff]
    omega

/-! ## The functions of a file -/

theorem file_eq_ok {f : File} (h : s.file = .ok f) : f.arena = s.arena ∧ s.root = some f.root := by
  unfold file at h
  split at h
  · cases h
  · cases hroot : s.root with
    | none =>
      rw [hroot] at h
      cases h
    | some r =>
      rw [hroot] at h
      cases h
      exact ⟨rfl, rfl⟩

theorem text_file {f : File} (h : s.file = .ok f) : f.text = s.text := by
  unfold file at h
  split at h
  · cases h
  · split at h
    · cases h
    · cases h
      rfl

/-- A node placed is a function in the arena if it was placed as one. -/
theorem Recorded.filter_isFunction {log : List (Call × Answer)} (h : Recorded log s)
    {l : List (Kind × NodeId)} (hl : ∀ e ∈ l, e ∈ placed log) :
    (l.map Prod.snd).filter s.arena.isFunction = (l.filter (·.1.isFunctionLike)).map Prod.snd := by
  rw [List.filter_map]
  refine congrArg _ (List.filter_congr fun e he => ?_)
  rw [Function.comp_apply, Arena.isFunction, h.kinds e (hl e he)]
  rfl

/-- A walk over the file finds the functions in the order in which they were placed, without the
root, which was placed first.  (A name is placed as an identifier, so it is none of them.) -/
theorem functionsBelow_file (fileName text : String) (calls : List Call) (f : File)
    (hf : ((begin fileName text).after calls).file = .ok f) :
    ∃ kind rest, placed ((begin fileName text).transcript calls) = (kind, f.root) :: rest ∧
      f.arena.functionsBelow f.root = (rest.filter (·.1.isFunctionLike)).map Prod.snd ∧
      (f.arena.functionsBelow f.root).Pairwise (· < ·) := by
  have h := recorded fileName text calls
  obtain ⟨harena, hroot⟩ := file_eq_ok hf
  obtain ⟨hroot0, hpos⟩ := h.sound.root_iff.1 hroot
  obtain ⟨⟨kind, i⟩, rest, hplaced⟩ := List.exists_cons_of_length_pos hpos
  have hnumbers := h.numbers
  rw [hplaced, List.length_cons, List.range_succ_eq_map, List.map_cons] at hnumbers
  obtain ⟨hi, hrest⟩ := List.cons.inj hnumbers
  have hfunctions : f.arena.functionsBelow f.root =
      (rest.map Prod.snd).filter f.arena.isFunction := by
    rw [harena, hroot0, h.sound.numbered.functionsBelow_zero, hplaced, List.length_cons,
      List.range_succ_eq_map, List.tail_cons, hrest]
  refine ⟨kind, rest, ?_, ?_, ?_⟩
  · rw [hplaced, hroot0]
    exact congrArg (fun i => (kind, i) :: rest) hi
  · rw [hfunctions, harena]
    refine h.filter_isFunction fun e he => ?_
    rw [hplaced]
    exact List.mem_cons_of_mem _ he
  · rw [harena, hroot0, h.sound.numbered.functionsBelow_zero]
    exact (List.pairwise_lt_range.tail).filter _

/-- A function in a function, among calls that fail: nothing is open, a token does not fit the
text, and the last node would be a second root. -/
theorem functionsBelow_file_nested :
    let calls : List Call := [.finish, .start .sourceFile, .start .functionDeclaration, .name "f",
      .lexeme .arrowFunction "g", .token .arrowFunction 2 9, .finish, .finish,
      .start .functionDeclaration]
    let s := (begin "a.ts" "f g").after calls
    let f : File := { name := "a.ts", text := "f g", arena := s.arena, root := 0 }
    s.file = .ok f ∧ f.arena.functionsBelow f.root = [1, 3] ∧
      ∃ kind rest, placed ((begin "a.ts" "f g").transcript calls) = (kind, f.root) :: rest ∧
        f.arena.functionsBelow f.root = (rest.filter (·.1.isFunctionLike)).map Prod.snd ∧
        (f.arena.functionsBelow f.root).Pairwise (· < ·) := by
  intro calls s f
  have hf : s.file = .ok f := by decide +kernel
  exact ⟨hf, by decide +kernel, functionsBelow_file "a.ts" "f g" calls f hf⟩

end ReturnHints.Session
