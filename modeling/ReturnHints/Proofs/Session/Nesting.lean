import ReturnHints.Proofs.Session.Lexeme

/-!
# Spans are nested

As long as no call puts a token in front of the cursor, the spans of a finished tree are nested and
ordered.  Until then the span of an open node is not settled: it is empty, and stands where the
cursor was when the node was opened.  So what holds at every point of a session says less about
open nodes than about closed ones:

    every child starts where its parent does, or behind, and ends at the cursor or before it
    every child of a closed node ends where its parent does, or before
    of two children the first ends where the second starts, or before       (Session.Nested)

An open node is the last child of its parent, and that one is open as well.  So when it is closed,
and takes the span of its children, nothing stands behind it that it could run into.
-/

namespace ReturnHints

/-! ## Spans -/

/-- The bytes from where to where a node stands. -/
def Arena.span (a : Arena) (i : NodeId) : Nat × Nat :=
  ((a.node? i).map fun n => (n.start, n.stop)).getD (0, 0)

namespace Arena

variable {a b : Arena} {i p c : NodeId} {n : Node}

theorem span_of_node? (h : a.node? i = some n) : a.span i = (n.start, n.stop) := by
  simp [span, h]

theorem span_add (a : Arena) (n : Node) (i : NodeId) :
    (a.add n).span i = if i = a.size then (n.start, n.stop) else a.span i := by
  rw [span, node?_add]
  split <;> rfl

theorem span_attach? (hb : a.attach? p c = some b) (i : NodeId) : b.span i = a.span i := by
  rw [span, node?_attach? hb, Option.map_map]
  rfl

theorem span_rename (a : Arena) (p : NodeId) (name : Option NodeId) (i : NodeId) :
    (a.modify p fun n => { n with name }).span i = a.span i := by
  rw [span, node?_modify]
  split
  · rw [Option.map_map]
    rfl
  · rfl

/-- Of nodes that stand one behind the other, the first one starts first and the last one ends
last. -/
theorem span_between {l : List NodeId} {first last : NodeId}
    (hupright : ∀ i, (a.span i).1 ≤ (a.span i).2)
    (hl : l.Pairwise fun c d => (a.span c).2 ≤ (a.span d).1)
    (hfirst : l.head? = some first) (hlast : l.getLast? = some last) :
    ∀ c ∈ l, (a.span first).1 ≤ (a.span c).1 ∧ (a.span c).2 ≤ (a.span last).2 := by
  intro c hc
  constructor
  · obtain ⟨tail, rfl⟩ := List.head?_eq_some_iff.1 hfirst
    rcases List.mem_cons.1 hc with rfl | hc
    · exact Nat.le_refl _
    · exact Nat.le_trans (hupright first) ((List.pairwise_cons.1 hl).1 c hc)
  · obtain ⟨init, rfl⟩ := List.getLast?_eq_some_iff.1 hlast
    rcases List.mem_append.1 hc with hc | hc
    · have hle := (List.pairwise_append.1 hl).2.2 c hc last (List.mem_singleton_self last)
      exact Nat.le_trans hle (hupright last)
    · rw [List.mem_singleton.1 hc]

end Arena

namespace Session

variable {s u : Session} {c : Call} {r : Except BuildError (Option NodeId)} {n : Node}
  {i p k : Nat} {rest : List NodeId}

/-! ## What the turns do to spans and child lists -/

theorem span_plant (s : Session) (n : Node) (i : NodeId) :
    (s.plant n).arena.span i =
      if i = s.arena.size then (n.start, n.stop) else s.arena.span i := by
  rcases arena_plant_cases s n with h | ⟨p, h⟩
  · rw [h, Arena.span_add]
  · rw [Arena.span_attach? h, Arena.span_add]

theorem span_settle (s : Session) (j : NodeId) (stop : Nat) (c : Call) (i : NodeId) :
    (s.settle j stop c).arena.span i = s.arena.span i := by
  cases c with
  | name text =>
    unfold settle setName
    cases hopen : s.openNodes with
    | nil => simp
    | cons p rest => simp [Arena.span_rename]
  | _ => rfl

/-- A planted node is the last child of the innermost open one. -/
theorem children_plant (h : s.Sound k) (hparent : n.parent = none) (hchildren : n.children = [])
    (p : NodeId) :
    (s.plant n).arena.children p =
      if s.openNodes.head? = some p then s.arena.children p ++ [s.arena.size]
      else s.arena.children p := by
  cases hopen : s.openNodes with
  | nil =>
    have hplant : (s.plant n).arena = s.arena.add n := by
      unfold plant
      rw [hopen]
    rw [hplant, Arena.children_add n hchildren]
    rfl
  | cons q rest =>
    obtain ⟨b, hb⟩ := h.exists_attach hopen hparent hchildren
    rw [Sound.plant_of_open hopen hb]
    show b.children p = _
    rw [Arena.children_attach? hb, Arena.children_add n hchildren, Arena.children_add n hchildren]
    by_cases hp : p = q
    · subst hp
      simp
    · simp [hp, Ne.symm hp]

/-- The cursor stands behind the node that was placed, also if it is empty and stays open. -/
theorem cursor_placed (hn : s.asked? c = some n) (j : NodeId) :
    ((s.plant n).settle j n.stop c).cursor = n.stop := by
  cases c with
  | start kind =>
    obtain rfl := Option.some.inj hn
    exact cursor_plant s _
  | finish => cases hn
  | token kind start stop => rfl
  | lexeme kind text => exact (cursor_settle _ _ _ rfl).1
  | name text => exact (cursor_settle _ _ _ rfl).1
  | setName name => cases hn

theorem openNodes_settle_superset (s : Session) (j : NodeId) (stop : Nat) (c : Call) :
    ∀ p ∈ s.openNodes, p ∈ (s.settle j stop c).openNodes := by
  intro p hp
  rcases settle_cases s j stop c with ⟨_, _, h⟩ | ⟨_, _, _, _, h⟩
  · rw [h]
    exact List.mem_cons_of_mem j hp
  · rw [h]
    exact hp

theorem span_fitted_of_ne (a : Arena) {j : NodeId} (h : j ≠ i) :
    (fitted a i).span j = a.span j := by
  rw [Arena.span, node?_fitted a h.symm, Arena.span]

/-- A closed node stands from the start of its first child to the end of its last one. -/
theorem span_fitted {a : Arena} {first last : NodeId} (ha : a.Forest)
    (hfirst : (a.children i).head? = some first) (hlast : (a.children i).getLast? = some last) :
    (fitted a i).span i = ((a.span first).1, (a.span last).2) := by
  have hchild : a.IsChild first i := List.mem_of_head? hfirst
  obtain ⟨m, hm⟩ := Arena.exists_node? (ha.child_lt_size hchild)
  obtain ⟨m', hm'⟩ := Arena.exists_node? (ha.child_lt_size (List.mem_of_getLast? hlast))
  obtain ⟨n, hn⟩ := Arena.exists_node? hchild.lt_size
  have hspan : spanOfChildren? a i = some (m.start, m'.stop) := by
    simp [spanOfChildren?, hfirst, hlast, hm, hm']
  rw [Arena.span_of_node? (node?_fitted_of_span hn hspan), Arena.span_of_node? hm,
    Arena.span_of_node? hm']

/-- An open node is the last child of its parent, which is open as well. -/
theorem Sound.last_of_open (h : s.Sound k) (hopen : s.openNodes = i :: rest)
    (hp : s.arena.IsChild i p) : p ∈ rest ∧ (s.arena.children p).getLast? = some i := by
  have hchain := h.chain
  rw [hopen] at hchain
  cases rest with
  | nil =>
    have hi : i = 0 := h.bottom i (by rw [hopen]; rfl)
    have hpos := h.numbered.lt_of_hasParent (h.numbered.isChild_iff.1 hp)
    omega
  | cons q rest =>
    have hlast := (List.isChain_cons_cons.1 hchain).1
    obtain rfl : p = q := h.numbered.forest.owner_unique hp (List.mem_of_getLast? hlast)
    exact ⟨List.mem_cons_self, hlast⟩

/-- The last of increasing numbers is the largest. -/
theorem le_of_getLast? {l : List Nat} {last : Nat} (hl : l.Pairwise (· < ·))
    (hlast : l.getLast? = some last) (hi : i ∈ l) : i ≤ last := by
  obtain ⟨init, rfl⟩ := List.getLast?_eq_some_iff.1 hlast
  rcases List.mem_append.1 hi with hi | hi
  · exact Nat.le_of_lt ((List.pairwise_append.1 hl).2.2 i hi last (List.mem_singleton_self last))
  · exact Nat.le_of_eq (List.mem_singleton.1 hi)

/-! ## Nested sessions -/

/-- The spans of a session are nested and ordered, as far as they are settled. -/
structure Nested (s : Session) : Prop where
  upright : ∀ i, (s.arena.span i).1 ≤ (s.arena.span i).2
  passed : ∀ {c p}, s.arena.IsChild c p → (s.arena.span c).2 ≤ s.cursor
  opened : ∀ p ∈ s.openNodes, (s.arena.span p).1 ≤ s.cursor
  start_le : ∀ {c p}, s.arena.IsChild c p → (s.arena.span p).1 ≤ (s.arena.span c).1
  stop_le : ∀ {c p}, s.arena.IsChild c p → p ∉ s.openNodes →
    (s.arena.span c).2 ≤ (s.arena.span p).2
  ordered : ∀ p, (s.arena.children p).Pairwise fun c d =>
    (s.arena.span c).2 ≤ (s.arena.span d).1

namespace Nested

protected theorem begin (fileName text : String) : (begin fileName text).Nested where
  upright i := Nat.le_refl 0
  passed hc := absurd hc Arena.isChild_empty
  opened p hp := absurd hp List.not_mem_nil
  start_le hc := absurd hc Arena.isChild_empty
  stop_le hc := absurd hc Arena.isChild_empty
  ordered p := by
    show (Arena.empty.children p).Pairwise _
    rw [Arena.children_eq_nil_of_le (Nat.zero_le p)]
    exact .nil

/-- Whatever is added, the nodes that are there keep their spans, and nothing but a new node at or
behind the cursor becomes a child, of a node that is open. -/
theorem extend (h : s.Nested) (hs : s.Sound k)
    (hspan : ∀ i, i < s.arena.size → u.arena.span i = s.arena.span i)
    (hupright : ∀ i, s.arena.size ≤ i → (u.arena.span i).1 ≤ (u.arena.span i).2)
    (hcursor : s.cursor ≤ u.cursor)
    (hchildren : ∀ p, u.arena.children p = s.arena.children p ∨
      u.arena.children p = s.arena.children p ++ [s.arena.size] ∧ p ∈ s.openNodes ∧
        s.cursor ≤ (u.arena.span s.arena.size).1 ∧ (u.arena.span s.arena.size).2 ≤ u.cursor)
    (hkept : ∀ p ∈ s.openNodes, p ∈ u.openNodes)
    (hopened : ∀ p ∈ u.openNodes, p ∈ s.openNodes ∨ (u.arena.span p).1 ≤ u.cursor) :
    u.Nested := by
  have hopen : ∀ p ∈ s.openNodes, u.arena.span p = s.arena.span p := fun p hp =>
    hspan p (Nat.lt_of_lt_of_le (hs.open_lt p hp) hs.numbered.le_size)
  have hold : ∀ {c p}, s.arena.IsChild c p →
      u.arena.span c = s.arena.span c ∧ u.arena.span p = s.arena.span p := fun hc =>
    ⟨hspan _ (hs.numbered.forest.child_lt_size hc), hspan _ hc.lt_size⟩
  have hchild : ∀ {c p}, u.arena.IsChild c p → s.arena.IsChild c p ∨
      (c = s.arena.size ∧ p ∈ s.openNodes ∧ s.cursor ≤ (u.arena.span c).1 ∧
        (u.arena.span c).2 ≤ u.cursor) := by
    intro c p hc
    rw [Arena.IsChild] at hc
    rcases hchildren p with heq | ⟨heq, hp, hbounds⟩
    · rw [heq] at hc
      exact .inl hc
    · rw [heq, List.mem_append, List.mem_singleton] at hc
      rcases hc with hc | rfl
      · exact .inl hc
      · exact .inr ⟨rfl, hp, hbounds⟩
  refine ⟨fun i => ?_, fun {c p} hc => ?_, fun p hp => ?_, fun {c p} hc => ?_,
    fun {c p} hc hp => ?_, fun p => ?_⟩
  · rcases Nat.lt_or_ge i s.arena.size with hi | hi
    · rw [hspan i hi]
      exact h.upright i
    · exact hupright i hi
  · rcases hchild hc with hc | ⟨_, _, _, hstop⟩
    · have hle := h.passed hc
      rw [(hold hc).1]
      omega
    · exact hstop
  · rcases hopened p hp with hp | hle
    · have hle := h.opened p hp
      rw [hopen p hp]
      omega
    · exact hle
  · rcases hchild hc with hc | ⟨_, hp, hstart, _⟩
    · rw [(hold hc).1, (hold hc).2]
      exact h.start_le hc
    · have hle := h.opened p hp
      rw [hopen p hp]
      omega
  · rcases hchild hc with hc | ⟨_, hp', _, _⟩
    · rw [(hold hc).1, (hold hc).2]
      exact h.stop_le hc fun hp' => hp (hkept p hp')
    · exact absurd (hkept p hp') hp
  · have hpairs : (s.arena.children p).Pairwise fun c d =>
        (u.arena.span c).2 ≤ (u.arena.span d).1 := by
      refine (h.ordered p).imp_of_mem fun {c d} hc hd hcd => ?_
      rw [(hold hc).1, (hold hd).1]
      exact hcd
    rcases hchildren p with heq | ⟨heq, _, hstart, _⟩
    · rw [heq]
      exact hpairs
    · rw [heq]
      refine List.pairwise_append.2 ⟨hpairs, List.pairwise_singleton _ _, fun c hc d hd => ?_⟩
      have hle := h.passed hc
      rw [List.mem_singleton.1 hd, (hold hc).1]
      omega

/-- A node that is turned away has no parent to fit into. -/
theorem surplus (h : s.Nested) (hs : s.Sound k) (hchildren : n.children = [])
    (hspan : n.start ≤ n.stop) : { s with arena := s.arena.add n }.Nested := by
  refine h.extend hs (fun i hi => ?_) (fun i hi => ?_) (Nat.le_refl _)
    (fun p => .inl (Arena.children_add n hchildren p)) (fun p hp => hp) (fun p hp => .inl hp)
  · exact (Arena.span_add s.arena n i).trans (if_neg (Nat.ne_of_lt hi))
  · show ((s.arena.add n).span i).1 ≤ ((s.arena.add n).span i).2
    rw [Arena.span_add]
    split
    · exact hspan
    · exact h.upright i

/-- A node that is placed starts at the cursor or behind it. -/
theorem placed (h : s.Nested) (hs : s.Sound k) (hn : s.asked? c = some n)
    (hahead : s.cursor ≤ n.start) : ((s.plant n).settle s.arena.size n.stop c).Nested := by
  obtain ⟨kind, start, stop, rfl, _, hle, _⟩ := exists_of_asked? hn
  have hcursor := cursor_placed hn s.arena.size
  have hspan : ∀ i, (((s.plant { kind, start, stop }).settle s.arena.size stop c).arena.span i) =
      if i = s.arena.size then (start, stop) else s.arena.span i := by
    intro i
    rw [span_settle, span_plant]
  have hnew := hspan s.arena.size
  rw [if_pos rfl] at hnew
  refine h.extend hs (fun i hi => ?_) (fun i hi => ?_) ?_ (fun p => ?_) (fun p hp => ?_)
    fun p hp => ?_
  · rw [hspan, if_neg (Nat.ne_of_lt hi)]
  · rw [hspan]
    split
    · exact hle
    · exact h.upright i
  · rw [hcursor]
    exact Nat.le_trans hahead hle
  · rw [(sameLinks_settle _ _ _ _).children, children_plant hs rfl rfl, hnew, hcursor]
    split
    · next hp => exact .inr ⟨rfl, List.mem_of_head? hp, hahead, Nat.le_refl _⟩
    · exact .inl rfl
  · exact openNodes_settle_superset _ _ _ _ p (by rwa [openNodes_plant])
  · rcases openNodes_settle_subset _ _ _ _ p hp with rfl | hp
    · rw [hnew, hcursor]
      exact .inr hle
    · rw [openNodes_plant] at hp
      exact .inl hp

/-- A name has no bytes. -/
theorem rename (h : s.Nested) (hs : s.Sound k) (i : NodeId) (name : Option NodeId) :
    { s with arena := s.arena.modify i fun n => { n with name } }.Nested := by
  have hsame := Arena.sameLinks_modify s.arena i (f := fun n => { n with name })
    (fun _ => rfl) (fun _ => rfl) (fun _ => rfl)
  have hspan := Arena.span_rename s.arena i name
  refine h.extend hs (fun j _ => hspan j) (fun j _ => ?_) (Nat.le_refl _)
    (fun p => .inl (hsame.children p)) (fun p hp => hp) (fun p hp => .inl hp)
  show (Arena.span _ j).1 ≤ (Arena.span _ j).2
  rw [hspan]
  exact h.upright j

/-- A node that is closed grows to the right only, around its children and up to the cursor. -/
theorem fitted_bounds (h : s.Nested) (hs : s.Sound k) (i : NodeId) :
    (s.arena.span i).1 ≤ ((fitted s.arena i).span i).1 ∧
    ((fitted s.arena i).span i).1 ≤ ((fitted s.arena i).span i).2 ∧
    (∀ p, s.arena.IsChild i p → ((fitted s.arena i).span i).2 ≤ s.cursor) ∧
    ∀ c, s.arena.IsChild c i → ((fitted s.arena i).span i).1 ≤ (s.arena.span c).1 ∧
      (s.arena.span c).2 ≤ ((fitted s.arena i).span i).2 := by
  by_cases hnil : s.arena.children i = []
  · rw [fitted_of_nil hnil]
    refine ⟨Nat.le_refl _, h.upright i, fun p hp => h.passed hp, fun c hc => ?_⟩
    rw [Arena.IsChild, hnil] at hc
    cases hc
  · obtain ⟨first, hfirst⟩ := Option.ne_none_iff_exists'.1 (mt List.head?_eq_none_iff.1 hnil)
    obtain ⟨last, hlast⟩ := Option.ne_none_iff_exists'.1 (mt List.getLast?_eq_none_iff.1 hnil)
    have hbetween := Arena.span_between h.upright (h.ordered i) hfirst hlast
    have hmem : s.arena.IsChild first i := List.mem_of_head? hfirst
    rw [span_fitted hs.numbered.forest hfirst hlast]
    refine ⟨h.start_le hmem, ?_, fun p _ => h.passed (List.mem_of_getLast? hlast), hbetween⟩
    exact Nat.le_trans (h.upright first) (hbetween first hmem).2

/-- No node starts earlier than before when one is closed. -/
theorem start_le_fitted (h : s.Nested) (hs : s.Sound k) (i j : NodeId) :
    (s.arena.span j).1 ≤ ((fitted s.arena i).span j).1 := by
  by_cases hj : j = i
  · subst hj
    exact (h.fitted_bounds hs j).1
  · rw [span_fitted_of_ne s.arena hj]

/-- The innermost open node is closed. -/
theorem close (h : s.Nested) (hs : s.Sound k) (hopen : s.openNodes = i :: rest) :
    { s with arena := fitted s.arena i, openNodes := rest }.Nested := by
  obtain ⟨_, hupright, hcursor, hinside⟩ := h.fitted_bounds hs i
  have hstart := h.start_le_fitted hs i
  have hlinks := sameLinks_fitted s.arena i
  have hchild : ∀ {c p}, (fitted s.arena i).IsChild c p → s.arena.IsChild c p := by
    intro c p hc
    rwa [Arena.IsChild, hlinks.children] at hc
  have hself : ∀ {c}, s.arena.IsChild c i → c ≠ i := by
    rintro c hc rfl
    exact hs.numbered.forest.not_below_self (.single hc)
  have hspan : ∀ {j}, j ≠ i → (fitted s.arena i).span j = s.arena.span j :=
    fun hj => span_fitted_of_ne s.arena hj
  refine ⟨fun j => ?_, fun {c p} hc => ?_, fun p hp => ?_, fun {c p} hc => ?_,
    fun {c p} hc hp => ?_, fun p => ?_⟩
  · show ((fitted s.arena i).span j).1 ≤ ((fitted s.arena i).span j).2
    by_cases hj : j = i
    · rw [hj]
      exact hupright
    · rw [hspan hj]
      exact h.upright j
  · show ((fitted s.arena i).span c).2 ≤ s.cursor
    by_cases hci : c = i
    · subst hci
      exact hcursor p (hchild hc)
    · rw [hspan hci]
      exact h.passed (hchild hc)
  · show ((fitted s.arena i).span p).1 ≤ s.cursor
    rw [hspan (Nat.ne_of_lt (hs.lt_of_mem_rest hopen p hp))]
    exact h.opened p (by rw [hopen]; exact List.mem_cons_of_mem i hp)
  · show ((fitted s.arena i).span p).1 ≤ ((fitted s.arena i).span c).1
    replace hc := hchild hc
    by_cases hp : p = i
    · subst hp
      rw [hspan (hself hc)]
      exact (hinside c hc).1
    · have hle := h.start_le hc
      have hgrown := hstart c
      rw [hspan hp]
      omega
  · show ((fitted s.arena i).span c).2 ≤ ((fitted s.arena i).span p).2
    replace hc := hchild hc
    by_cases hci : c = i
    · subst hci
      exact absurd (hs.last_of_open hopen hc).1 hp
    · rw [hspan hci]
      by_cases hpi : p = i
      · subst hpi
        exact (hinside c hc).2
      · rw [hspan hpi]
        refine h.stop_le hc fun hmem => ?_
        rw [hopen] at hmem
        exact (List.mem_cons.1 hmem).elim hpi hp
  · show ((fitted s.arena i).children p).Pairwise _
    rw [hlinks.children]
    refine ((h.ordered p).and (hs.numbered.increasing p)).imp_of_mem fun {c d} hc hd hcd => ?_
    show ((fitted s.arena i).span c).2 ≤ ((fitted s.arena i).span d).1
    by_cases hci : c = i
    · -- nothing stands behind a node that is still open
      subst hci
      have hle := le_of_getLast? (hs.numbered.increasing p) (hs.last_of_open hopen hc).2 hd
      exact absurd hcd.2 (Nat.not_lt.2 hle)
    · have hle := hcd.1
      have hgrown := hstart d
      rw [hspan hci]
      omega

end Nested

/-! ## Sessions that go forward -/

/-- Whether a token that was placed by its bytes starts at the cursor or behind it. -/
def ahead (s : Session) : Call → Except BuildError (Option NodeId) → Bool
  | .token _ start _, .ok _ => s.cursor ≤ start
  | _, _ => true

/-- Whether every token that the calls place by its bytes starts at the cursor or behind it. -/
def forward (s : Session) : List Call → Bool
  | [] => true
  | c :: calls => s.ahead c (s.call c).1 && (s.call c).2.forward calls

theorem cursor_le_start (hn : s.asked? c = some n) (hahead : s.ahead c (.ok (some i)) = true) :
    s.cursor ≤ n.start := by
  cases hs : c.sought? with
  | some text =>
    obtain ⟨kind, start, stop, rfl, hat⟩ := exists_of_sought? hn hs
    exact (slice?_of_locate? hat).1
  | none =>
    cases c with
    | start kind =>
      obtain rfl := Option.some.inj hn
      exact Nat.le_refl _
    | token kind start stop =>
      rw [asked?] at hn
      split at hn
      · cases hn
        exact of_decide_eq_true hahead
      · cases hn
    | lexeme kind text => cases hs
    | name text => cases hs
    | finish => cases hn
    | setName name => cases hn

theorem Nested.turn (h : s.Nested) (hs : s.Sound k) (ht : Turn s c r u)
    (hahead : s.ahead c r = true) : u.Nested := by
  cases ht with
  | refused => exact h
  | surplus hn hclosed =>
    obtain ⟨_, _, _, rfl, _, hle, _⟩ := exists_of_asked? hn
    exact h.surplus hs rfl hle
  | placed hn hclosed => exact h.placed hs hn (cursor_le_start hn hahead)
  | closed hopen => exact h.close hs hopen
  | @named name i => exact h.rename hs i name

theorem Nested.after (h : s.Nested) (hs : s.Sound k) {calls : List Call}
    (hcalls : s.forward calls = true) : (s.after calls).Nested := by
  induction calls generalizing s k with
  | nil => exact h
  | cons c calls ih =>
    rw [forward, Bool.and_eq_true] at hcalls
    have ht := turn_call s c
    obtain ⟨k', hs'⟩ := ht.exists_sound hs
    exact ih (h.turn hs ht hcalls.1) hs' hcalls.2

/-- Once every node is closed, all spans are settled. -/
theorem Nested.settled (h : s.Nested) (hs : s.Sound k) (hopen : s.openNodes = [])
    (hn : s.arena.node? p = some n) :
    n.start ≤ n.stop ∧
    (∀ c ∈ s.arena.children p, ∃ m, s.arena.node? c = some m ∧
      n.start ≤ m.start ∧ m.stop ≤ n.stop) ∧
    (s.arena.children p).Pairwise fun c d => ∃ m m', s.arena.node? c = some m ∧
      s.arena.node? d = some m' ∧ m.stop ≤ m'.start := by
  have hspan := Arena.span_of_node? hn
  have hnode : ∀ c ∈ s.arena.children p, ∃ m, s.arena.node? c = some m := fun c hc =>
    Arena.exists_node? (hs.numbered.forest.child_lt_size hc)
  refine ⟨?_, fun c hc => ?_, (h.ordered p).imp_of_mem fun {c d} hc hd hcd => ?_⟩
  · have hle := h.upright p
    rwa [hspan] at hle
  · obtain ⟨m, hm⟩ := hnode c hc
    have hstart := h.start_le hc
    have hstop := h.stop_le hc (by rw [hopen]; exact List.not_mem_nil)
    rw [hspan, Arena.span_of_node? hm] at hstart hstop
    exact ⟨m, hm, hstart, hstop⟩
  · obtain ⟨m, hm⟩ := hnode c hc
    obtain ⟨m', hm'⟩ := hnode d hd
    rw [Arena.span_of_node? hm, Arena.span_of_node? hm'] at hcd
    exact ⟨m, m', hm, hm', hcd⟩

/-- If no call puts a token in front of the cursor, then in the file that comes out no node ends
before it starts or beyond the text, its children lie inside it, and they stand one behind the
other in the order of the list. -/
theorem file_spans_nested (fileName text : String) (calls : List Call) (f : File)
    (hcalls : (begin fileName text).forward calls = true)
    (hf : ((begin fileName text).after calls).file = .ok f) :
    ∀ p n, f.arena.node? p = some n →
      (n.start ≤ n.stop ∧ n.stop ≤ Text.byteLength text.toList) ∧
      (∀ c ∈ f.arena.children p, ∃ m, f.arena.node? c = some m ∧
        n.start ≤ m.start ∧ m.stop ≤ n.stop) ∧
      (f.arena.children p).Pairwise fun c d => ∃ m m', f.arena.node? c = some m ∧
        f.arena.node? d = some m' ∧ m.stop ≤ m'.start := by
  have hs := (recorded fileName text calls).sound
  have h := (Nested.begin fileName text).after (.begin fileName text) hcalls
  have hopen := (hs.exists_file_iff.1 ⟨f, hf⟩).1
  rw [(file_eq_ok hf).1]
  intro p n hn
  obtain ⟨hupright, hinside, hordered⟩ := h.settled hs hopen hn
  have hwithin := (hs.within p n hn).2
  rw [length, text_after] at hwithin
  exact ⟨⟨hupright, hwithin⟩, hinside, hordered⟩

/-- Empty nodes in front and at the end, a token that does not fit the text, and one in front of
the cursor that is turned away. -/
theorem file_spans_nested_empty :
    let calls : List Call := [.start .sourceFile, .start .block, .finish, .token .identifier 1 2,
      .start .functionExpression, .name "g", .token .closeParenToken 0 9,
      .token .closeParenToken 4 5, .start .block, .finish, .finish, .finish,
      .token .colonToken 0 1]
    let s := (begin "a.ts" " f g)").after calls
    let f : File := { name := "a.ts", text := " f g)", arena := s.arena, root := 0 }
    (begin "a.ts" " f g)").forward calls = true ∧ s.file = .ok f ∧
    f.arena.children 3 = [4, 5, 6] ∧
    (f.arena.children 3).Pairwise fun c d => ∃ m m', f.arena.node? c = some m ∧
      f.arena.node? d = some m' ∧ m.stop ≤ m'.start := by
  intro calls s f
  have hcalls : (begin "a.ts" " f g)").forward calls = true := by decide +kernel
  have hf : s.file = .ok f := by decide +kernel
  obtain ⟨n, hn⟩ : ∃ n, f.arena.node? 3 = some n := Arena.exists_node? (by decide +kernel)
  refine ⟨hcalls, hf, by decide +kernel, ?_⟩
  exact (file_spans_nested "a.ts" " f g)" calls f hcalls hf 3 n hn).2.2

end Session

end ReturnHints
