import Mathlib.Data.List.Chain
import ReturnHints.Proofs.Session.Turn
import ReturnHints.Proofs.Tree.Numbered

/-!
# How a session grows its tree

At every point of a session, whatever calls have failed before, the nodes placed so far are one
tree, numbered from the root on in the order of the calls; the open nodes lead from the root
down along last children; and the nodes that were turned away stand alone behind the others.

    Sound s k     the tree has the nodes 0 to k - 1, and all that goes with it
    Sound s k → the turns of s lead to Sound u k, or to Sound u (k + 1) if a node is placed
-/

namespace ReturnHints

/-! ## Spans -/

/-- No span goes beyond `m` bytes. -/
def Arena.Within (a : Arena) (m : Nat) : Prop :=
  ∀ i n, a.node? i = some n → n.start ≤ m ∧ n.stop ≤ m

namespace Arena.Within

variable {a b : Arena} {p c : NodeId} {m : Nat}

protected theorem add (h : a.Within m) {n : Node} (hn : n.start ≤ m ∧ n.stop ≤ m) :
    (a.add n).Within m := by
  intro i n' hn'
  rw [node?_add] at hn'
  split at hn'
  · obtain rfl := Option.some.inj hn'
    exact hn
  · exact h i n' hn'

protected theorem attach (h : a.Within m) (hb : a.attach? p c = some b) : b.Within m := by
  intro i n' hn'
  rw [node?_attach? hb] at hn'
  obtain ⟨n, hn, rfl⟩ := Option.map_eq_some_iff.1 hn'
  exact h i n hn

protected theorem modify (h : a.Within m) (i : NodeId) {f : Node → Node}
    (hf : ∀ n, n.start ≤ m ∧ n.stop ≤ m → (f n).start ≤ m ∧ (f n).stop ≤ m) :
    (a.modify i f).Within m := by
  intro j n' hn'
  rw [node?_modify] at hn'
  split at hn'
  · obtain ⟨n, hn, rfl⟩ := Option.map_eq_some_iff.1 hn'
    exact hf n (h j n hn)
  · exact h j n' hn'

end Arena.Within

namespace Session

variable {s t : Session} {c : Call} {n : Node} {i p k : Nat} {rest : List NodeId}

theorem within_fitted {a : Arena} {m : Nat} (h : a.Within m) (i : NodeId) :
    (fitted a i).Within m := by
  unfold fitted
  cases hspan : spanOfChildren? a i with
  | none => exact h
  | some span =>
    obtain ⟨start, stop⟩ := span
    simp only [spanOfChildren?, bind, Option.bind_eq_some_iff, pure, Option.some.injEq,
      Prod.mk.injEq] at hspan
    obtain ⟨first, _, last, _, n₁, h₁, n₂, h₂, rfl, rfl⟩ := hspan
    exact h.modify i fun _ _ => ⟨(h first n₁ h₁).1, (h last n₂ h₂).2⟩

theorem sameLinks_fitted (a : Arena) (i : NodeId) : a.SameLinks (fitted a i) := by
  unfold fitted
  split
  · exact .refl a
  · exact Arena.sameLinks_modify a i (fun _ => rfl) (fun _ => rfl) (fun _ => rfl)

/-! ## Sound sessions -/

/-- A session whose tree has `k` nodes. -/
structure Sound (s : Session) (k : Nat) : Prop where
  numbered : s.arena.Numbered k
  root_eq : s.root = if k = 0 then none else some 0
  size_eq : ¬ s.Closed → s.arena.size = k
  open_lt : ∀ p ∈ s.openNodes, p < k
  chain : s.openNodes.IsChain fun i p => (s.arena.children p).getLast? = some i
  bottom : ∀ r ∈ s.openNodes.getLast?, r = 0
  top : ∀ p ∈ s.openNodes.head?, Relation.ReflTransGen s.arena.HasParent (k - 1) p
  cursor_le : s.cursor ≤ s.length
  within : s.arena.Within s.length

namespace Sound

protected theorem begin (fileName text : String) : (begin fileName text).Sound 0 where
  numbered := .empty
  root_eq := rfl
  size_eq _ := rfl
  open_lt _ h := absurd h List.not_mem_nil
  chain := .nil
  bottom _ h := by cases h
  top _ h := by cases h
  cursor_le := Nat.zero_le _
  within i n h := by
    rw [Arena.node?_eq_none_iff.2 (Nat.zero_le i)] at h
    cases h

theorem not_closed_of_open (hopen : s.openNodes = p :: rest) : ¬ s.Closed := by
  intro h
  rw [h.1] at hopen
  cases hopen

theorem hasParent_of_getLast? (h : s.Sound k) (hlast : (s.arena.children p).getLast? = some i) :
    s.arena.HasParent i p :=
  h.numbered.isChild_iff.1 (List.mem_of_getLast? hlast)

/-- The open nodes have falling numbers from the innermost one on. -/
theorem lt_of_mem_rest (h : s.Sound k) (hopen : s.openNodes = p :: rest) :
    ∀ q ∈ rest, q < p := by
  have hfall : List.IsChain (fun i q : Nat => i > q) s.openNodes :=
    h.chain.imp fun i q hlast => h.numbered.parent_lt (h.hasParent_of_getLast? hlast)
  rw [hopen] at hfall
  exact (List.pairwise_cons.1 hfall.pairwise).1

/-- Names, spans and the cursor do not matter to the tree. -/
theorem relabel (h : s.Sound k) {b : Arena} {cursor : Nat} (hb : s.arena.SameLinks b)
    (hw : b.Within s.length) (hcursor : cursor ≤ s.length) :
    { s with arena := b, cursor }.Sound k where
  numbered := h.numbered.congr hb
  root_eq := h.root_eq
  size_eq hclosed := hb.size.trans (h.size_eq hclosed)
  open_lt := h.open_lt
  chain := h.chain.imp fun i p hlast => by rw [hb.children]; exact hlast
  bottom := h.bottom
  top q hq := by
    refine Relation.ReflTransGen.mono (fun i p hp => ?_) _ _ (h.top q hq)
    rw [Arena.HasParent, hb.parent?]
    exact hp
  cursor_le := hcursor
  within := hw

/-! ## What each turn keeps -/

/-- A node that is turned away stands alone. -/
theorem surplus (h : s.Sound k) (hclosed : s.Closed) (hparent : n.parent = none)
    (hchildren : n.children = []) (hspan : n.start ≤ s.length ∧ n.stop ≤ s.length) :
    { s with arena := s.arena.add n }.Sound k where
  numbered := h.numbered.add hparent hchildren
  root_eq := h.root_eq
  size_eq hopen := absurd hclosed hopen
  open_lt := h.open_lt
  chain := by
    show List.IsChain _ s.openNodes
    rw [hclosed.1]
    exact .nil
  bottom := h.bottom
  top q hq := by
    have hq' : q ∈ s.openNodes.head? := hq
    rw [hclosed.1] at hq'
    cases hq'
  cursor_le := h.cursor_le
  within := h.within.add hspan

theorem pos_of_open (h : s.Sound k) (hopen : s.openNodes = p :: rest) : 0 < k := by
  have hp : p < k := h.open_lt p (by rw [hopen]; exact List.mem_cons_self)
  omega

theorem size_of_open (h : s.Sound k) (hopen : s.openNodes = p :: rest) : s.arena.size = k :=
  h.size_eq (not_closed_of_open hopen)

/-- The innermost open node takes every new node. -/
theorem exists_attach (h : s.Sound k) (hopen : s.openNodes = p :: rest)
    (hparent : n.parent = none) (hchildren : n.children = []) :
    ∃ b, (s.arena.add n).attach? p s.arena.size = some b := by
  refine h.numbered.exists_graft hparent hchildren ?_
  rw [h.size_of_open hopen]
  exact h.open_lt p (by rw [hopen]; exact List.mem_cons_self)

theorem plant_of_open {b : Arena} (hopen : s.openNodes = p :: rest)
    (hb : (s.arena.add n).attach? p s.arena.size = some b) :
    s.plant n = { s with arena := b } := by
  unfold Session.plant
  rw [hopen]
  simp [hb]

/-- Planting under an open node. -/
theorem plant_open (h : s.Sound k) (hopen : s.openNodes = p :: rest) (hparent : n.parent = none)
    (hchildren : n.children = []) (hspan : n.start ≤ s.length ∧ n.stop ≤ s.length) :
    (s.plant n).Sound (k + 1) ∧ ((s.plant n).arena.children p).getLast? = some k := by
  have hsize := h.size_of_open hopen
  have hpos := h.pos_of_open hopen
  have htop : Relation.ReflTransGen s.arena.HasParent (s.arena.size - 1) p := by
    rw [hsize]
    exact h.top p (by rw [hopen]; rfl)
  obtain ⟨b, hb⟩ := h.exists_attach hopen hparent hchildren
  have hnum : b.Numbered (s.arena.size + 1) :=
    (hsize ▸ h.numbered : s.arena.Numbered s.arena.size).graft hparent hchildren htop
      (hsize ▸ hpos) hb
  rw [hsize] at hnum
  have hp : b.children p = s.arena.children p ++ [k] := by
    rw [Arena.children_attach? hb, if_pos rfl, Arena.children_add n hchildren, hsize]
  have hq : ∀ q ∈ rest, b.children q = s.arena.children q := by
    intro q hq
    rw [Arena.children_attach? hb, if_neg (Nat.ne_of_lt (h.lt_of_mem_rest hopen q hq)),
      Arena.children_add n hchildren]
  rw [plant_of_open hopen hb]
  refine ⟨⟨hnum, ?_, ?_, ?_, ?_, h.bottom, ?_, h.cursor_le, ?_⟩, ?_⟩
  · show s.root = _
    rw [h.root_eq, if_neg (Nat.ne_of_gt hpos), if_neg (Nat.succ_ne_zero k)]
  · intro _
    show b.size = k + 1
    rw [Arena.size_attach? hb, Arena.size_add, hsize]
  · intro q hq
    exact Nat.lt_succ_of_lt (h.open_lt q hq)
  · have hchain := h.chain
    rw [hopen] at hchain
    show List.IsChain _ s.openNodes
    rw [hopen]
    refine hchain.imp_of_mem_tail_imp fun i q _ hmem hlast => ?_
    rw [hq q hmem]
    exact hlast
  · intro q hq'
    have heq : q = p := by
      have hq'' : q ∈ s.openNodes.head? := hq'
      rw [hopen] at hq''
      exact (Option.some.inj hq'').symm
    have hlink : b.HasParent k p := by
      rw [Arena.HasParent, Arena.parent?_attach? hb, if_pos hsize.symm]
    rw [heq]
    exact .single hlink
  · exact (h.within.add hspan).attach hb
  · show (b.children p).getLast? = some k
    rw [hp, List.getLast?_append]
    rfl

/-- Planting the root. -/
theorem plant_root (h : s.Sound k) (hopen : s.openNodes = []) (hclosed : ¬ s.Closed)
    (hparent : n.parent = none) (hchildren : n.children = [])
    (hspan : n.start ≤ s.length ∧ n.stop ≤ s.length) : k = 0 ∧ (s.plant n).Sound 1 := by
  have hroot : s.root = none := Classical.byContradiction fun hroot => hclosed ⟨hopen, hroot⟩
  have hk : k = 0 := by
    refine Classical.byContradiction fun hk => ?_
    rw [h.root_eq, if_neg hk] at hroot
    cases hroot
  subst hk
  have hsize := h.size_eq hclosed
  have hplant : s.plant n = { s with arena := s.arena.add n, root := some 0 } := by
    unfold Session.plant
    rw [hopen]
    simp [hsize]
  have hempty : { s with arena := s.arena.add n, root := some 0 }.openNodes = [] := hopen
  refine ⟨rfl, ?_⟩
  rw [hplant]
  refine ⟨(h.numbered.add hparent hchildren).one ?_, rfl, ?_, ?_, ?_, ?_, ?_, h.cursor_le,
    h.within.add hspan⟩
  · rw [Arena.size_add]
    exact Nat.succ_pos _
  · intro hnot
    exact absurd ⟨hopen, by simp⟩ hnot
  · rw [hempty]
    simp
  · rw [hempty]
    exact .nil
  · rw [hempty]
    simp
  · rw [hempty]
    simp

/-- The last node of the tree is opened. -/
theorem push (h : s.Sound (k + 1)) (hsize : s.arena.size = k + 1)
    (hroot : s.openNodes = [] → k = 0)
    (hlast : ∀ p ∈ s.openNodes.head?, (s.arena.children p).getLast? = some k) :
    { s with openNodes := k :: s.openNodes }.Sound (k + 1) where
  numbered := h.numbered
  root_eq := h.root_eq
  size_eq _ := hsize
  open_lt := by
    intro p hp
    rcases List.mem_cons.1 hp with rfl | hp
    · exact Nat.lt_succ_self _
    · exact h.open_lt p hp
  chain := by
    have hchain := h.chain
    show List.IsChain _ (k :: s.openNodes)
    cases hopen : s.openNodes with
    | nil => exact .singleton k
    | cons p rest =>
      rw [hopen] at hchain hlast
      exact List.isChain_cons_cons.2 ⟨hlast p rfl, hchain⟩
  bottom := by
    intro r hr
    have hr' : r ∈ (k :: s.openNodes).getLast? := hr
    cases hopen : s.openNodes with
    | nil =>
      rw [hopen] at hr'
      rw [← Option.some.inj hr']
      exact hroot hopen
    | cons p rest =>
      rw [hopen, List.getLast?_cons_cons, ← hopen] at hr'
      exact h.bottom r hr'
  top := by
    intro p hp
    obtain rfl := Option.some.inj hp
    exact .refl
  cursor_le := h.cursor_le
  within := h.within

/-- The innermost open node is closed. -/
theorem pop (h : s.Sound k) (hopen : s.openNodes = i :: rest) :
    { s with openNodes := rest }.Sound k where
  numbered := h.numbered
  root_eq := h.root_eq
  size_eq _ := h.size_of_open hopen
  open_lt p hp := h.open_lt p (by rw [hopen]; exact List.mem_cons_of_mem _ hp)
  chain := by
    have hchain := h.chain
    rw [hopen] at hchain
    exact hchain.tail
  bottom := by
    intro r hr
    refine h.bottom r ?_
    have hr' : r ∈ rest.getLast? := hr
    cases rest with
    | nil => cases hr'
    | cons p rest =>
      rw [hopen, List.getLast?_cons_cons]
      exact hr'
  top := by
    intro p hp
    have hp' : p ∈ rest.head? := hp
    have hchain := h.chain
    have htop := h.top i (by rw [hopen]; rfl)
    cases rest with
    | nil => cases hp'
    | cons q rest =>
      obtain rfl := Option.some.inj hp'
      rw [hopen] at hchain
      exact htop.tail (h.hasParent_of_getLast? (List.isChain_cons_cons.1 hchain).1)
  cursor_le := h.cursor_le
  within := h.within

theorem close (h : s.Sound k) (hopen : s.openNodes = i :: rest) :
    { s with arena := fitted s.arena i, openNodes := rest }.Sound k :=
  (h.relabel (sameLinks_fitted s.arena i) (within_fitted h.within i) h.cursor_le).pop hopen

/-- A name is noted. -/
theorem rename (h : s.Sound k) (i : NodeId) (name : Option NodeId) :
    { s with arena := s.arena.modify i fun n => { n with name } }.Sound k :=
  h.relabel (Arena.sameLinks_modify s.arena i (fun _ => rfl) (fun _ => rfl) (fun _ => rfl))
    (h.within.modify i fun _ hn => hn) h.cursor_le

end Sound

/-! ## Placing a node -/

theorem arena_plant_cases (s : Session) (n : Node) :
    (s.plant n).arena = s.arena.add n ∨
      ∃ p, (s.arena.add n).attach? p s.arena.size = some (s.plant n).arena := by
  unfold plant
  split
  · next p _ _ =>
    cases hb : (s.arena.add n).attach? p s.arena.size with
    | none => exact .inl rfl
    | some b => exact .inr ⟨p, hb⟩
  · exact .inl rfl

theorem size_plant (s : Session) (n : Node) : (s.plant n).arena.size = s.arena.size + 1 := by
  rcases arena_plant_cases s n with h | ⟨p, h⟩
  · rw [h, Arena.size_add]
  · rw [Arena.size_attach? h, Arena.size_add]

theorem kind?_plant (s : Session) (n : Node) (i : NodeId) :
    (s.plant n).arena.kind? i = if i = s.arena.size then some n.kind else s.arena.kind? i := by
  rcases arena_plant_cases s n with h | ⟨p, h⟩
  · rw [h, Arena.kind?_add]
  · rw [Arena.kind?_attach? h, Arena.kind?_add]

/-- Only a started node is opened; with every other call the cursor moves and a name may be
noted. -/
theorem settle_cases (s : Session) (i : NodeId) (stop : Nat) (c : Call) :
    (∃ kind, c = .start kind ∧ s.settle i stop c = { s with openNodes := i :: s.openNodes }) ∨
    ((∀ kind, c ≠ .start kind) ∧ ∃ b, s.arena.SameLinks b ∧
      (∀ m, s.arena.Within m → b.Within m) ∧
      s.settle i stop c = { s with arena := b, cursor := stop }) := by
  cases c with
  | start kind => exact .inl ⟨kind, rfl, rfl⟩
  | name text =>
    refine .inr ⟨by simp, ?_⟩
    unfold settle setName
    cases hopen : s.openNodes with
    | nil => exact ⟨s.arena, .refl _, fun _ h => h, by simp⟩
    | cons p rest =>
      refine ⟨s.arena.modify p fun n => { n with name := some i },
        Arena.sameLinks_modify s.arena p (fun _ => rfl) (fun _ => rfl) (fun _ => rfl),
        fun _ h => h.modify p fun _ hn => hn, by simp⟩
  | _ => exact .inr ⟨by simp, s.arena, .refl _, fun _ h => h, rfl⟩

theorem sameLinks_settle (s : Session) (i : NodeId) (stop : Nat) (c : Call) :
    s.arena.SameLinks (s.settle i stop c).arena := by
  rcases settle_cases s i stop c with ⟨kind, _, h⟩ | ⟨_, b, hb, _, h⟩
  · rw [h]
    exact .refl _
  · rw [h]
    exact hb

theorem Turn.text_eq {r : Except BuildError (Option NodeId)} (h : Turn s c r t) :
    t.text = s.text := by
  cases h with
  | @placed _ n _ _ =>
    rcases settle_cases (s.plant n) s.arena.size n.stop c with ⟨_, _, hs⟩ | ⟨_, _, _, _, hs⟩
    · rw [hs]
      exact text_plant s n
    · rw [hs]
      exact text_plant s n
  | _ => rfl

/-- A node asked for fits into the text and has no links yet. -/
theorem Sound.fresh_of_asked? (h : s.Sound k) (hn : s.asked? c = some n) :
    n.parent = none ∧ n.children = [] ∧ n.start ≤ s.length ∧ n.stop ≤ s.length := by
  obtain ⟨kind, start, stop, rfl, _, hle, hstop⟩ := exists_of_asked? hn
  have hcursor := h.cursor_le
  refine ⟨rfl, rfl, ?_, ?_⟩
  · show start ≤ s.length
    omega
  · show stop ≤ s.length
    omega

theorem Sound.place (h : s.Sound k) (hn : s.asked? c = some n) (hclosed : ¬ s.Closed) :
    ((s.plant n).settle k n.stop c).Sound (k + 1) := by
  obtain ⟨hparent, hchildren, hspan⟩ := h.fresh_of_asked? hn
  have hsize := size_plant s n
  rw [h.size_eq hclosed] at hsize
  -- planted under an open node, or as the root
  obtain ⟨hplant, hroot, hlast⟩ : (s.plant n).Sound (k + 1) ∧ (s.openNodes = [] → k = 0) ∧
      ∀ p ∈ s.openNodes.head?, ((s.plant n).arena.children p).getLast? = some k := by
    cases hopen : s.openNodes with
    | nil =>
      obtain ⟨rfl, hplant⟩ := h.plant_root hopen hclosed hparent hchildren hspan
      exact ⟨hplant, fun _ => rfl, by simp⟩
    | cons p rest =>
      obtain ⟨hplant, hlast⟩ := h.plant_open hopen hparent hchildren hspan
      refine ⟨hplant, fun hnil => absurd hnil (List.cons_ne_nil p rest), fun q hq => ?_⟩
      obtain rfl := Option.some.inj hq
      exact hlast
  rcases settle_cases (s.plant n) k n.stop c with
    ⟨_, _, hsettle⟩ | ⟨_, b, hb, hwithin, hsettle⟩
  · rw [hsettle]
    refine hplant.push hsize ?_ ?_
    · rw [openNodes_plant]
      exact hroot
    · rw [openNodes_plant]
      exact hlast
  · rw [hsettle]
    refine hplant.relabel hb (hwithin _ hplant.within) ?_
    rw [length, text_plant]
    exact hspan.2

theorem Turn.exists_sound {r : Except BuildError (Option NodeId)} (ht : Turn s c r t)
    (h : s.Sound k) : ∃ k, t.Sound k := by
  cases ht with
  | refused => exact ⟨k, h⟩
  | surplus hn hclosed =>
    obtain ⟨hparent, hchildren, hspan⟩ := h.fresh_of_asked? hn
    exact ⟨k, h.surplus hclosed hparent hchildren hspan⟩
  | placed hn hclosed => exact ⟨k + 1, by rw [h.size_eq hclosed]; exact h.place hn hclosed⟩
  | closed hopen => exact ⟨k, h.close hopen⟩
  | @named name i => exact ⟨k, h.rename i name⟩

end Session

end ReturnHints
