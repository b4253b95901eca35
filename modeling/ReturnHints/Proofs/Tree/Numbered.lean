import Mathlib.Data.List.Sort
import ReturnHints.Proofs.Tree.Preorder

/-!
# Trees numbered in pre-order

An arena in which the nodes from `0` to `k - 1` are one tree with root `0`, each node being a
child of its predecessor or of a node above that one, and in which the other nodes stand alone.

    Numbered a k → the nodes below 0 are 1, 2, …, k - 1, in this order        (below_zero)

A node that is added and attached to the last node, or to one above it, continues the numbers.
-/

namespace ReturnHints.Arena

variable {a b : Arena} {i j p q c d k : Nat}

/-- The same links in both arenas: names and spans may differ. -/
structure SameLinks (a b : Arena) : Prop where
  size : b.size = a.size
  children : ∀ i, b.children i = a.children i
  parent? : ∀ i, b.parent? i = a.parent? i
  kind? : ∀ i, b.kind? i = a.kind? i

theorem SameLinks.refl (a : Arena) : a.SameLinks a :=
  ⟨rfl, fun _ => rfl, fun _ => rfl, fun _ => rfl⟩

/-- Changing a node beside its links. -/
theorem sameLinks_modify (a : Arena) (i : NodeId) {f : Node → Node}
    (hkind : ∀ n, (f n).kind = n.kind) (hparent : ∀ n, (f n).parent = n.parent)
    (hchildren : ∀ n, (f n).children = n.children) : a.SameLinks (a.modify i f) where
  size := size_modify a i f
  children j := by
    rw [children, node?_modify, children]
    split
    · cases a.node? j with
      | none => rfl
      | some n => exact hchildren n
    · rfl
  parent? j := by
    rw [parent?, node?_modify, parent?]
    split
    · cases a.node? j with
      | none => rfl
      | some n => exact hparent n
    · rfl
  kind? j := by
    rw [kind?, node?_modify, kind?]
    split
    · cases a.node? j with
      | none => rfl
      | some n => exact congrArg some (hkind n)
    · rfl

/-! ## The numbering -/

/-- Nodes `0` to `k - 1` are a tree with root `0`, numbered in pre-order; the others stand
alone. -/
structure Numbered (a : Arena) (k : Nat) : Prop where
  le_size : k ≤ a.size
  isChild_iff : ∀ {c p : Nat}, a.IsChild c p ↔ a.HasParent c p
  increasing : ∀ p, (a.children p).Pairwise (· < ·)
  parent_lt : ∀ {i p : Nat}, a.HasParent i p → p < i
  hasParent_iff : ∀ {i : Nat}, (∃ p, a.HasParent i p) ↔ 0 < i ∧ i < k
  preorder : ∀ {i p : Nat}, a.HasParent (i + 1) p → Relation.ReflTransGen a.HasParent i p

namespace Numbered

theorem lt_of_hasParent (h : a.Numbered k) (hi : a.HasParent i p) : 0 < i ∧ i < k :=
  h.hasParent_iff.1 ⟨p, hi⟩

theorem parent?_eq_none (h : a.Numbered k) (hi : ¬ (0 < i ∧ i < k)) : a.parent? i = none := by
  cases hp : a.parent? i with
  | none => rfl
  | some p => exact absurd (h.lt_of_hasParent hp) hi

theorem not_mem_children (h : a.Numbered k) (hi : ¬ (0 < i ∧ i < k)) (p : Nat) :
    i ∉ a.children p :=
  fun hmem => hi (h.lt_of_hasParent (h.isChild_iff.1 hmem))

theorem children_eq_nil (h : a.Numbered k) (hi : k ≤ i) : a.children i = [] := by
  refine List.eq_nil_iff_forall_not_mem.2 fun c hc => ?_
  have hp := h.isChild_iff.1 hc
  have := h.parent_lt hp
  have := h.lt_of_hasParent hp
  omega

/-- Each node of the tree but the root has one parent, with a smaller number, and stands once
in its list and in no other. -/
theorem exists_parent (h : a.Numbered k) (h0 : 0 < i) (hi : i < k) :
    ∃ p < i, a.parent? i = some p ∧ (a.children p).count i = 1 ∧
      ∀ q, q ≠ p → i ∉ a.children q := by
  obtain ⟨p, hp⟩ := h.hasParent_iff.2 ⟨h0, hi⟩
  have hnodup : (a.children p).Nodup := (h.increasing p).imp fun hlt => Nat.ne_of_lt hlt
  refine ⟨p, h.parent_lt hp, hp, List.count_eq_one_of_mem hnodup (h.isChild_iff.2 hp), ?_⟩
  intro q hq hmem
  exact hq (hasParent_rightUnique a (h.isChild_iff.1 hmem) hp)

theorem le_of_reaches (h : a.Numbered k) (hij : Relation.ReflTransGen a.HasParent i j) :
    j ≤ i := by
  induction hij with
  | refl => exact Nat.le_refl i
  | tail _ hstep ih => exact Nat.le_trans (Nat.le_of_lt (h.parent_lt hstep)) ih

theorem forest (h : a.Numbered k) : a.Forest where
  hasParent hc := h.isChild_iff.1 hc
  nodup p := (h.increasing p).imp fun hlt => Nat.ne_of_lt hlt
  ranked := by
    refine ⟨fun i : Nat => a.size - i, fun {c p} hc => ?_⟩
    have hp := h.isChild_iff.1 hc
    exact Nat.sub_lt_sub_left (Nat.lt_trans (h.parent_lt hp) hp.lt_size) (h.parent_lt hp)

/-- The numbering is a matter of the links. -/
theorem of_links (h : a.Numbered k) (hsize : k ≤ b.size)
    (hchildren : ∀ i, b.children i = a.children i) (hparent : ∀ i, b.parent? i = a.parent? i) :
    b.Numbered k := by
  have hup : b.HasParent = a.HasParent := by
    funext i p
    rw [HasParent, hparent, HasParent]
  have hdown : b.IsChild = a.IsChild := by
    funext c p
    rw [IsChild, hchildren, IsChild]
  refine ⟨hsize, ?_, fun p => hchildren p ▸ h.increasing p, ?_, ?_, ?_⟩
  · rw [hup, hdown]
    exact h.isChild_iff
  · rw [hup]
    exact h.parent_lt
  · rw [hup]
    exact h.hasParent_iff
  · rw [hup]
    exact h.preorder

theorem congr (h : a.Numbered k) (hab : a.SameLinks b) : b.Numbered k :=
  h.of_links (hab.size ▸ h.le_size) hab.children hab.parent?

/-! ## Growing -/

protected theorem empty : empty.Numbered 0 where
  le_size := Nat.le_refl 0
  isChild_iff :=
    ⟨fun hc => absurd hc isChild_empty, fun hp => absurd hp.lt_size (Nat.not_lt_zero _)⟩
  increasing p := by
    rw [children_eq_nil_of_le (Nat.zero_le p)]
    exact List.Pairwise.nil
  parent_lt hp := absurd hp.lt_size (Nat.not_lt_zero _)
  hasParent_iff := by
    refine ⟨fun ⟨_, hp⟩ => absurd hp.lt_size (Nat.not_lt_zero _), fun hi => ?_⟩
    omega
  preorder hp := absurd hp.lt_size (Nat.not_lt_zero _)

/-- A node that is added and nothing else stands alone. -/
protected theorem add (h : a.Numbered k) {n : Node} (hp : n.parent = none)
    (hc : n.children = []) : (a.add n).Numbered k := by
  refine h.of_links ?_ (children_add n hc) (parent?_add_of_none n hp)
  rw [size_add]
  exact Nat.le_succ_of_le h.le_size

/-- The first node is a tree. -/
theorem one (h : a.Numbered 0) : 0 < a.size → a.Numbered 1 := by
  intro hsize
  refine ⟨hsize, h.isChild_iff, h.increasing, h.parent_lt, ?_, h.preorder⟩
  intro i
  rw [h.hasParent_iff]
  omega

/-- A new node is never refused by a node of the tree. -/
theorem exists_graft (h : a.Numbered k) {n : Node} (hn : n.parent = none) (hc : n.children = [])
    (hp : p < a.size) :
    ∃ b, (a.add n).attach? p a.size = some b := by
  refine Option.isSome_iff_exists.1 (isSome_attach?_iff.2 ⟨?_, ?_, ?_, ?_⟩)
  · rw [size_add]
    exact Nat.lt_succ_of_lt hp
  · rw [size_add]
    exact Nat.lt_succ_self _
  · rw [parent?_add, if_pos rfl, hn]
  · intro hreach
    have hle := (h.add hn hc).le_of_reaches hreach
    exact absurd hle (Nat.not_le.2 hp)

theorem hasParent_graft {n : Node} (hn : n.parent = none)
    (hb : (a.add n).attach? p a.size = some b) :
    b.HasParent i q ↔ a.HasParent i q ∨ (i = a.size ∧ q = p) := by
  rw [HasParent, parent?_attach? hb]
  split
  · next hi =>
    constructor
    · intro hq
      exact .inr ⟨hi, (Option.some.inj hq).symm⟩
    · rintro (hq | ⟨_, rfl⟩)
      · exact absurd hq.lt_size (Nat.not_lt.2 (Nat.le_of_eq hi.symm))
      · rfl
  · next hi =>
    rw [parent?_add_of_none n hn, HasParent]
    simp [hi]

/-- Attaching the next node to the last one or above it continues the numbers. -/
theorem graft (h : a.Numbered a.size) {n : Node} (hn : n.parent = none) (hc : n.children = [])
    (hp : Relation.ReflTransGen a.HasParent (a.size - 1) p) (hsize : 0 < a.size)
    (hb : (a.add n).attach? p a.size = some b) : b.Numbered (a.size + 1) := by
  have hlt : p < a.size := by
    have := h.le_of_reaches hp
    omega
  have hmono : ∀ i q, Relation.ReflTransGen a.HasParent i q →
      Relation.ReflTransGen b.HasParent i q :=
    Relation.ReflTransGen.mono fun _ _ hstep => (hasParent_graft hn hb).2 (.inl hstep)
  refine ⟨?_, ?_, ?_, ?_, ?_, ?_⟩
  · rw [size_attach? hb, size_add]
  · intro c q
    rw [isChild_attach? hb, isChild_add n hc, h.isChild_iff, hasParent_graft hn hb]
  · intro q
    rw [children_attach? hb]
    split
    · rw [children_add n hc]
      refine List.pairwise_append.2 ⟨h.increasing p, List.pairwise_singleton _ _, ?_⟩
      intro x hx y hy
      rw [List.mem_singleton] at hy
      rw [hy]
      exact h.forest.child_lt_size hx
    · rw [children_add n hc]
      exact h.increasing q
  · intro i q hq
    rcases (hasParent_graft hn hb).1 hq with hq | ⟨rfl, rfl⟩
    · exact h.parent_lt hq
    · exact hlt
  · intro i
    constructor
    · rintro ⟨q, hq⟩
      rcases (hasParent_graft hn hb).1 hq with hq | ⟨rfl, _⟩
      · have := h.lt_of_hasParent hq
        omega
      · omega
    · intro hi
      by_cases hlast : i = a.size
      · exact ⟨p, (hasParent_graft hn hb).2 (.inr ⟨hlast, rfl⟩)⟩
      · obtain ⟨q, hq⟩ :=
          h.hasParent_iff.2 ⟨hi.1, Nat.lt_of_le_of_ne (Nat.le_of_lt_succ hi.2) hlast⟩
        exact ⟨q, (hasParent_graft hn hb).2 (.inl hq)⟩
  · intro i q hq
    rcases (hasParent_graft hn hb).1 hq with hq | ⟨hi, rfl⟩
    · exact hmono i q (h.preorder hq)
    · have : i = a.size - 1 := by omega
      exact this ▸ hmono _ _ hp

/-! ## The order below the root -/

theorem reaches_iff (h : a.Numbered k) :
    Relation.ReflTransGen a.IsChild i j ↔ Relation.ReflTransGen a.HasParent i j := by
  have heq : a.IsChild = a.HasParent := by
    funext c p
    exact propext h.isChild_iff
  rw [heq]

/-- What stands below a child comes before the children to its right. -/
theorem lt_of_below_left (h : a.Numbered k) (hc : a.IsChild c p) (hd : a.IsChild d p)
    (hcd : c < d) (hj : Relation.ReflTransGen a.HasParent j c) : j < d := by
  refine Nat.lt_of_not_le fun hdj => ?_
  -- from `d` on no node is below `c`: the parent of each is above its predecessor
  have hout : ¬ Relation.ReflTransGen a.HasParent j c := by
    clear hj
    induction hdj with
    | refl =>
      intro hdc
      exact Nat.ne_of_lt hcd (h.forest.eq_of_common_below hc hd (h.reaches_iff.2 hdc) .refl)
    | @step m hdm ih =>
      intro hmc
      rcases Relation.ReflTransGen.cases_head hmc with heq | ⟨q, hq, hqc⟩
      · exact absurd heq (Nat.ne_of_gt (Nat.lt_succ_of_lt (Nat.lt_of_lt_of_le hcd hdm)))
      · exact ih ((h.preorder hq).trans hqc)
  exact hout hj

theorem pairwise_below (h : a.Numbered k) (i : Nat) :
    (h.forest.below i).Pairwise (· < ·) := by
  induction i using h.forest.wellFounded.induction with
  | h i ih =>
    have hup : ∀ {c j}, j ∈ c :: h.forest.below c → Relation.ReflTransGen a.HasParent j c :=
      fun hj => h.reaches_iff.1 (h.forest.mem_cons_below_iff.1 hj)
    rw [Forest.below_eq, List.pairwise_flatMap]
    constructor
    · intro c hc
      refine List.pairwise_cons.2 ⟨fun j hj => ?_, ih c hc⟩
      have hle := h.le_of_reaches (hup (List.mem_cons_of_mem c hj))
      refine Nat.lt_of_le_of_ne hle ?_
      rintro rfl
      exact h.forest.not_below_self (h.forest.mem_below_iff.1 hj)
    · refine (h.increasing i).imp_of_mem ?_
      intro c d hc hd hcd x hx y hy
      exact Nat.lt_of_lt_of_le (h.lt_of_below_left hc hd hcd (hup hx)) (h.le_of_reaches (hup hy))

theorem mem_below_zero (h : a.Numbered k) : i ∈ h.forest.below 0 ↔ 0 < i ∧ i < k := by
  rw [h.forest.mem_below_iff]
  constructor
  · intro hi
    obtain ⟨p, hp, _⟩ := Relation.TransGen.head'_iff.1 hi
    exact h.lt_of_hasParent (h.isChild_iff.1 hp)
  · intro hi
    induction i using Nat.strongRecOn with
    | ind i ih =>
      obtain ⟨p, hp⟩ := h.hasParent_iff.2 hi
      have hlt := h.parent_lt hp
      rcases Nat.eq_zero_or_pos p with rfl | hpos
      · exact .single (h.isChild_iff.2 hp)
      · exact .head (h.isChild_iff.2 hp) (ih p hlt ⟨hpos, by omega⟩)

/-- The nodes below the root are the others of the tree, by their numbers. -/
theorem below_zero (h : a.Numbered k) : h.forest.below 0 = (List.range k).tail := by
  refine List.Pairwise.eq_of_mem_iff (h.pairwise_below 0) List.pairwise_lt_range.tail ?_
  intro (i : Nat)
  rw [h.mem_below_zero]
  cases k with
  | zero => simp
  | succ k =>
    rw [List.range_succ_eq_map, List.tail_cons, List.mem_map]
    constructor
    · intro hi
      exact ⟨i - 1, List.mem_range.2 (by omega), Nat.sub_add_cancel hi.1⟩
    · rintro ⟨j, hj, rfl⟩
      have := List.mem_range.1 hj
      omega

theorem functionsBelow_zero (h : a.Numbered k) :
    a.functionsBelow 0 = (List.range k).tail.filter a.isFunction := by
  rw [h.forest.functionsBelow_eq, h.forest.functions_eq_filter, h.below_zero]

end Numbered

end ReturnHints.Arena
