import ReturnHints.Proofs.Tree.Forest
import ReturnHints.Tree.Walk

/-!
# A walk is the recursive pre-order

In a forest the nodes below a node can be listed by recursion: each child from left to right,
followed by the nodes below it.

    h.below i     = each child c: c, then h.below c
    h.functions i = each child c: c if it is a function, then h.functions c
    j ∈ h.functions i ↔ j is a function below i, and none is there twice   (mem_functions_iff)

A walk keeps the nodes still to be visited on a stack.  The loop of `Walk.advance` and the
collecting of `Walk.take` are written here as derivations without a bound (`Advances`, `Yields`);
what they still have to visit is `h.spread w.pending`, one node less with every visit.

    Yields a w l ↔ l = (h.spread w.pending).filter a.isFunction            (yields_iff)
    (h.spread w.pending).length ≤ a.size → w.toList a = the same list      (toList_eq)
-/

namespace ReturnHints

/-- Whether a number names a function-like node. -/
def Arena.isFunction (a : Arena) (i : NodeId) : Bool := (a.kind? i).any Kind.isFunctionLike

namespace Arena.Forest

variable {a : Arena} {i j c d : NodeId}

/-! ## Pre-order -/

/-- The nodes below a node, in pre-order. -/
def below (h : a.Forest) (i : NodeId) : List NodeId :=
  (a.children i).attach.flatMap fun c => c.1 :: h.below c.1
termination_by h.wellFounded.wrap i
decreasing_by exact c.2

/-- The functions below a node, in pre-order. -/
def functions (h : a.Forest) (i : NodeId) : List NodeId :=
  (a.children i).attach.flatMap fun c =>
    (if a.isFunction c.1 then [c.1] else []) ++ h.functions c.1
termination_by h.wellFounded.wrap i
decreasing_by exact c.2

theorem below_eq (h : a.Forest) (i : NodeId) :
    h.below i = (a.children i).flatMap fun c => c :: h.below c := by
  rw [Forest.below]
  simp

theorem functions_eq (h : a.Forest) (i : NodeId) :
    h.functions i = (a.children i).flatMap fun c =>
      (if a.isFunction c then [c] else []) ++ h.functions c := by
  rw [Forest.functions]
  simp

theorem functions_eq_filter (h : a.Forest) (i : NodeId) :
    h.functions i = (h.below i).filter a.isFunction := by
  induction i using h.wellFounded.induction with
  | h i ih =>
    rw [functions_eq, below_eq, List.filter_flatMap]
    refine List.flatMap_congr fun c hc => ?_
    rw [ih c hc]
    by_cases hf : a.isFunction c
    · simp [hf]
    · simp [hf]

/-! ## What stands below a node -/

theorem mem_below_iff (h : a.Forest) : j ∈ h.below i ↔ Relation.TransGen a.IsChild j i := by
  induction i using h.wellFounded.induction with
  | h i ih =>
    rw [below_eq, List.mem_flatMap, Relation.TransGen.tail'_iff]
    constructor
    · rintro ⟨c, hc, hj⟩
      refine ⟨c, ?_, hc⟩
      rcases List.mem_cons.1 hj with rfl | hj
      · exact .refl
      · exact ((ih c hc).1 hj).to_reflTransGen
    · rintro ⟨c, hj, hc⟩
      refine ⟨c, hc, ?_⟩
      rcases Relation.reflTransGen_iff_eq_or_transGen.1 hj with rfl | hj
      · exact List.mem_cons_self
      · exact List.mem_cons_of_mem _ ((ih c hc).2 hj)

theorem mem_cons_below_iff (h : a.Forest) :
    j ∈ i :: h.below i ↔ Relation.ReflTransGen a.IsChild j i := by
  rw [List.mem_cons, h.mem_below_iff, Relation.reflTransGen_iff_eq_or_transGen, eq_comm]

/-- Two children of one node have no node below them in common. -/
theorem eq_of_common_below (h : a.Forest) (hc : a.IsChild c i) (hd : a.IsChild d i)
    (hjc : Relation.ReflTransGen a.IsChild j c) (hjd : Relation.ReflTransGen a.IsChild j d) :
    c = d := by
  -- the one above the other would put `i` below itself
  have key : ∀ {c d}, a.IsChild c i → a.IsChild d i → Relation.ReflTransGen a.IsChild c d →
      c = d := by
    intro c d hc hd hcd
    rcases Relation.ReflTransGen.cases_head hcd with rfl | ⟨p, hp, hpd⟩
    · rfl
    · rw [h.owner_unique hp hc] at hpd
      exact absurd (.tail' hpd hd) h.not_below_self
  have hunique : Relator.RightUnique a.IsChild := fun _ _ _ hp hq => h.owner_unique hp hq
  rcases Relation.ReflTransGen.total_of_right_unique hunique hjc hjd with hcd | hdc
  · exact key hc hd hcd
  · exact (key hd hc hdc).symm

theorem nodup_below (h : a.Forest) (i : NodeId) : (h.below i).Nodup := by
  induction i using h.wellFounded.induction with
  | h i ih =>
    rw [below_eq, List.nodup_flatMap]
    constructor
    · intro c hc
      refine List.nodup_cons.2 ⟨fun hmem => ?_, ih c hc⟩
      exact h.not_below_self (h.mem_below_iff.1 hmem)
    · refine (h.nodup i).imp_of_mem ?_
      intro c d hc hd hcd j hjc hjd
      exact hcd (h.eq_of_common_below hc hd (h.mem_cons_below_iff.1 hjc)
        (h.mem_cons_below_iff.1 hjd))

theorem mem_functions_iff (h : a.Forest) :
    j ∈ h.functions i ↔ a.isFunction j = true ∧ Relation.TransGen a.IsChild j i := by
  rw [functions_eq_filter, List.mem_filter, h.mem_below_iff, and_comm]

theorem nodup_functions (h : a.Forest) (i : NodeId) : (h.functions i).Nodup := by
  rw [functions_eq_filter]
  exact (h.nodup_below i).filter _

theorem length_below_le (h : a.Forest) (i : NodeId) : (h.below i).length ≤ a.size := by
  refine length_le_of_nodup_of_lt (h.nodup_below i) fun j hj => ?_
  obtain ⟨p, hp, _⟩ := Relation.TransGen.head'_iff.1 (h.mem_below_iff.1 hj)
  exact h.child_lt_size hp

/-! ## What a walk has still to visit -/

/-- The nodes that a stack of pending nodes stands for. -/
def spread (h : a.Forest) (pending : List NodeId) : List NodeId :=
  pending.flatMap fun i => i :: h.below i

theorem spread_children (h : a.Forest) (i : NodeId) : h.spread (a.children i) = h.below i :=
  (h.below_eq i).symm

/-- A visit takes one node off the stack and puts its children in its place. -/
theorem spread_cons (h : a.Forest) (i : NodeId) (rest : List NodeId) :
    h.spread (i :: rest) = i :: h.spread (a.children i ++ rest) := by
  rw [spread, spread, List.flatMap_cons, List.flatMap_append, below_eq, List.cons_append]

end Arena.Forest

/-! ## Walks without a bound -/

namespace Walk

/-- What a search for the next function comes to, however many nodes it has to visit. -/
inductive Advances (a : Arena) : List NodeId → Option (NodeId × Walk) → Prop
  | finished : Advances a [] none
  | missing {i rest r} : a.node? i = none → Advances a rest r → Advances a (i :: rest) r
  | found {i rest n} : a.node? i = some n → n.kind.isFunctionLike = true →
      Advances a (i :: rest) (some (i, ⟨n.children ++ rest⟩))
  | passed {i rest n r} : a.node? i = some n → n.kind.isFunctionLike = false →
      Advances a (n.children ++ rest) r → Advances a (i :: rest) r

/-- All that a walk finds, one search after the other until one finds nothing. -/
inductive Yields (a : Arena) : Walk → List NodeId → Prop
  | done {w} : Advances a w.pending none → Yields a w []
  | next {w i w' l} : Advances a w.pending (some (i, w')) → Yields a w' l → Yields a w (i :: l)

variable {a : Arena} {i : NodeId} {n : Node} {w : Walk}

theorem children_of_node? (hn : a.node? i = some n) : a.children i = n.children := by
  simp [Arena.children, hn]

theorem isFunction_of_node? (hn : a.node? i = some n) :
    a.isFunction i = n.kind.isFunctionLike := by
  simp [Arena.isFunction, Arena.kind?, hn]

theorem spread_missing (h : a.Forest) (hi : a.node? i = none) (rest : List NodeId) :
    h.spread (i :: rest) = i :: h.spread rest := by
  have hc : a.children i = [] := by simp [Arena.children, hi]
  rw [h.spread_cons, hc, List.nil_append]

theorem spread_visit (h : a.Forest) (hn : a.node? i = some n) (rest : List NodeId) :
    h.spread (i :: rest) = i :: h.spread (n.children ++ rest) := by
  rw [h.spread_cons, children_of_node? hn]

/-- A search passes over nodes that are no functions; it stops at the first that is one. -/
theorem Advances.filter_spread (h : a.Forest) {l : List NodeId} {r : Option (NodeId × Walk)}
    (hr : Advances a l r) :
    match r with
    | none => (h.spread l).filter a.isFunction = []
    | some (i, w) =>
      (h.spread l).filter a.isFunction = i :: (h.spread w.pending).filter a.isFunction ∧
        (h.spread w.pending).length < (h.spread l).length := by
  induction hr with
  | finished => rfl
  | @missing i rest r hi _ ih =>
    have hf : a.isFunction i = false := by simp [Arena.isFunction, Arena.kind?, hi]
    rw [spread_missing h hi, List.filter_cons_of_neg (by simp [hf])]
    cases r with
    | none => exact ih
    | some r => exact ⟨ih.1, Nat.lt_succ_of_lt ih.2⟩
  | @found i rest n hn hf =>
    rw [spread_visit h hn,
      List.filter_cons_of_pos (by rw [isFunction_of_node? hn]; exact hf)]
    exact ⟨rfl, Nat.lt_succ_self _⟩
  | @passed i rest n r hn hf _ ih =>
    rw [spread_visit h hn, List.filter_cons_of_neg (by simp [isFunction_of_node? hn, hf])]
    cases r with
    | none => exact ih
    | some r => exact ⟨ih.1, Nat.lt_succ_of_lt ih.2⟩

/-- As many visits as there are nodes ahead are enough for a search. -/
theorem advances_advance (h : a.Forest) {k : Nat} {l : List NodeId}
    (hk : (h.spread l).length ≤ k) : Advances a l (advance a k l) := by
  induction k generalizing l with
  | zero =>
    cases l with
    | nil => exact .finished
    | cons i rest =>
      rw [h.spread_cons, List.length_cons] at hk
      omega
  | succ k ih =>
    cases l with
    | nil => exact .finished
    | cons i rest =>
      rw [advance]
      cases hn : a.node? i with
      | none =>
        rw [spread_missing h hn, List.length_cons] at hk
        exact .missing hn (ih (by omega))
      | some n =>
        rw [spread_visit h hn, List.length_cons] at hk
        by_cases hf : n.kind.isFunctionLike = true
        · simp only [if_pos hf]
          exact .found hn hf
        · simp only [if_neg hf]
          exact .passed hn (by simpa using hf) (ih (by omega))

/-- In a forest every walk comes to an end, with the functions ahead of it in pre-order. -/
theorem yields_iff (h : a.Forest) (w : Walk) (l : List NodeId) :
    Yields a w l ↔ l = (h.spread w.pending).filter a.isFunction := by
  constructor
  · intro hl
    induction hl with
    | done hr => exact (hr.filter_spread h).symm
    | next hr _ ih => rw [(hr.filter_spread h).1, ih]
  · rintro rfl
    -- on the number of nodes ahead: a search that finds something leaves fewer
    induction hk : (h.spread w.pending).length using Nat.strongRecOn generalizing w with
    | ind k ih =>
      have hr := advances_advance h (Nat.le_of_eq hk)
      cases hres : advance a k w.pending with
      | none =>
        rw [hres] at hr
        rw [hr.filter_spread h]
        exact .done hr
      | some r =>
        obtain ⟨i, w'⟩ := r
        rw [hres] at hr
        obtain ⟨hfilter, hlt⟩ := hr.filter_spread h
        rw [hfilter]
        exact .next hr (ih _ (hk ▸ hlt) w' rfl)

/-! ## The bound of a walk -/

theorem yields_take (h : a.Forest) {k : Nat} (hw : (h.spread w.pending).length ≤ a.size)
    (hk : (h.spread w.pending).length ≤ k) : Yields a w (take a k w) := by
  have hr : Advances a w.pending (w.next? a) := advances_advance h hw
  induction k generalizing w with
  | zero =>
    have hnil : h.spread w.pending = [] := List.eq_nil_of_length_eq_zero (by omega)
    refine (yields_iff h w _).2 ?_
    rw [hnil]
    rfl
  | succ k ih =>
    rw [take]
    cases hres : w.next? a with
    | none =>
      rw [hres] at hr
      exact .done hr
    | some r =>
      obtain ⟨i, w'⟩ := r
      rw [hres] at hr
      have hlt := (hr.filter_spread h).2
      have hw' : (h.spread w'.pending).length ≤ a.size := by omega
      exact .next hr (ih hw' (by omega) (advances_advance h hw'))

theorem toList_eq (h : a.Forest) (hw : (h.spread w.pending).length ≤ a.size) :
    w.toList a = (h.spread w.pending).filter a.isFunction :=
  (yields_iff h w _).1 (yields_take h hw hw)

end Walk

namespace Arena

theorem Forest.spread_below {a : Arena} (h : a.Forest) (root : NodeId) :
    h.spread (Walk.below a root).pending = h.below root :=
  h.spread_children root

theorem Forest.functionsBelow_eq {a : Arena} (h : a.Forest) (root : NodeId) :
    a.functionsBelow root = h.functions root := by
  have hsize : (h.spread (Walk.below a root).pending).length ≤ a.size := by
    rw [h.spread_below]
    exact h.length_below_le root
  rw [functionsBelow, Walk.toList_eq h hsize, h.spread_below, h.functions_eq_filter]

/-- Over every arena and from every number, the walk comes to an end and has found the functions
in the order of the recursion. -/
theorem functionsBelow_ofEdits (es : List Edit) (root : NodeId) :
    (∀ l, Walk.Yields (ofEdits es) (.below (ofEdits es) root) l ↔
      l = (ofEdits es).functionsBelow root) ∧
    (ofEdits es).functionsBelow root = (forest_ofEdits es).functions root := by
  have h := forest_ofEdits es
  refine ⟨fun l => ?_, h.functionsBelow_eq root⟩
  rw [Walk.yields_iff h, h.functionsBelow_eq, h.functions_eq_filter, h.spread_below]

/-! ## By the parents -/

theorem isFunction_iff {a : Arena} {n : NodeId} :
    a.isFunction n = true ↔ ∃ node, a.node? n = some node ∧ node.kind.isFunctionLike = true := by
  simp [isFunction, kind?, Option.any_eq_true]

/-- If no parent was put in by hand, a walk finds the functions from which the parents lead up to
its root, each of them once. -/
theorem functionsBelow_by_parents (es : List Edit) (root : NodeId)
    (hes : ∀ e ∈ es, e.setsParent = false) :
    ((ofEdits es).functionsBelow root).Nodup ∧
    ∀ n, n ∈ (ofEdits es).functionsBelow root ↔
      (∃ node, (ofEdits es).node? n = some node ∧ node.kind.isFunctionLike = true) ∧
      Relation.TransGen (fun i p => (ofEdits es).parent? i = some p) n root := by
  have h := forest_ofEdits es
  have hlinks : (ofEdits es).IsChild = fun i p => (ofEdits es).parent? i = some p := by
    funext i p
    exact propext ⟨h.hasParent, linked_ofEdits hes i p⟩
  rw [h.functionsBelow_eq]
  refine ⟨h.nodup_functions root, fun n => ?_⟩
  rw [h.mem_functions_iff, hlinks, isFunction_iff]

/-- From a function in the middle, in an arena that was put together from below: the function
above it and one that stands alone are not found. -/
theorem functionsBelow_by_parents_middle :
    let es : List Edit := [.add .sourceFile 0 9 none none,
      .add .functionDeclaration 0 9 none none, .add .functionExpression 2 9 none none,
      .add .block 3 9 none none, .add .arrowFunction 4 9 none none,
      .add .arrowFunction 9 9 none none, .attach 3 4, .attach 2 3, .attach 1 2, .attach 0 1,
      .attach 4 1, .attach 5 4]
    let a := ofEdits es
    a.functionsBelow 2 = [4] ∧ a.isFunction 1 = true ∧ a.isFunction 5 = true ∧
      Relation.TransGen (fun i p => a.parent? i = some p) 4 2 ∧
      ¬ Relation.TransGen (fun i p => a.parent? i = some p) 1 2 ∧
      ¬ Relation.TransGen (fun i p => a.parent? i = some p) 5 2 := by
  intro es a
  have hwalk : a.functionsBelow 2 = [4] := by decide +kernel
  have hfound := (functionsBelow_by_parents es 2 (by decide)).2
  have hout : ∀ n, a.isFunction n = true → n ∉ [4] →
      ¬ Relation.TransGen (fun i p => a.parent? i = some p) n 2 := by
    intro n hn hnot hup
    have hmem : n ∈ a.functionsBelow 2 := (hfound n).2 ⟨isFunction_iff.1 hn, hup⟩
    rw [hwalk] at hmem
    exact hnot hmem
  have h1 : a.isFunction 1 = true := by decide +kernel
  have h5 : a.isFunction 5 = true := by decide +kernel
  refine ⟨hwalk, h1, h5, ((hfound 4).1 ?_).2, hout 1 h1 (by decide), hout 5 h5 (by decide)⟩
  show 4 ∈ a.functionsBelow 2
  rw [hwalk]
  exact List.mem_singleton_self 4

end Arena

end ReturnHints
