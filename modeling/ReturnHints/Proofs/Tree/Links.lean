import Mathlib.Data.List.Perm.Subperm
import Mathlib.Logic.Relation
import ReturnHints.Tree.Arena

/-!
# The links of an arena

What the operations of an arena do to the links, and what a lineage knows about them.

    a.attach? p c = some b → b.children i = if i = p then a.children p ++ [c] else a.children i
    a.attach? p c = some b → b.parent? i = if i = c then some p else a.parent? i
    a.parent? c = none → (c ∈ a.lineage (a.size + 1) p ↔ c is p or above p)    (mem_lineage_iff)

The last line is why `attach?` may stop climbing after `a.size + 1` nodes: a climb that ends has
met no node twice.
-/

namespace ReturnHints.Arena

variable {a b : Arena} {i j p c : NodeId}

/-- `p` is recorded as the parent of `i`. -/
def HasParent (a : Arena) (i p : NodeId) : Prop := a.parent? i = some p

/-- `c` stands in the child list of `p`. -/
def IsChild (a : Arena) (c p : NodeId) : Prop := c ∈ a.children p

/-! ## Numbers that name no node -/

theorem node?_eq_none_iff : a.node? i = none ↔ a.size ≤ i := by
  simp [node?, size]

theorem exists_node? (h : i < a.size) : ∃ n, a.node? i = some n :=
  Option.ne_none_iff_exists'.1 fun hn => absurd h (Nat.not_lt.2 (node?_eq_none_iff.1 hn))

theorem lt_size_of_node? {n : Node} (h : a.node? i = some n) : i < a.size := by
  refine Nat.lt_of_not_le fun hle => ?_
  rw [node?_eq_none_iff.2 hle] at h
  cases h

theorem lt_size_of_kind? {kind : Kind} (h : a.kind? i = some kind) : i < a.size := by
  obtain ⟨n, hn, _⟩ := Option.map_eq_some_iff.1 h
  exact lt_size_of_node? hn

theorem children_eq_nil_of_le (h : a.size ≤ i) : a.children i = [] := by
  simp [children, node?_eq_none_iff.2 h]

theorem parent?_eq_none_of_le (h : a.size ≤ i) : a.parent? i = none := by
  simp [parent?, node?_eq_none_iff.2 h]

theorem not_hasParent (h : a.parent? i = none) : ¬ a.HasParent i p := by
  intro hp
  rw [HasParent, h] at hp
  cases hp

theorem HasParent.lt_size (h : a.HasParent i p) : i < a.size := by
  refine Nat.lt_of_not_le fun hi => ?_
  exact not_hasParent (parent?_eq_none_of_le hi) h

theorem IsChild.lt_size (h : a.IsChild c p) : p < a.size := by
  refine Nat.lt_of_not_le fun hp => ?_
  rw [IsChild, children_eq_nil_of_le hp] at h
  cases h

theorem hasParent_rightUnique (a : Arena) : Relator.RightUnique a.HasParent := by
  intro i p q hp hq
  exact Option.some.inj (hp.symm.trans hq)

/-! ## Adding a node -/

theorem children_add (n : Node) (hn : n.children = []) (i : NodeId) :
    (a.add n).children i = a.children i := by
  rw [children, node?_add]
  split
  · next hi =>
    rw [children_eq_nil_of_le (Nat.le_of_eq hi.symm)]
    simp [hn]
  · rfl

theorem parent?_add (n : Node) (i : NodeId) :
    (a.add n).parent? i = if i = a.size then n.parent else a.parent? i := by
  rw [parent?, node?_add]
  split <;> rfl

theorem parent?_add_of_none (n : Node) (hn : n.parent = none) (i : NodeId) :
    (a.add n).parent? i = a.parent? i := by
  rw [parent?_add]
  split
  · next hi => rw [hn, parent?_eq_none_of_le (Nat.le_of_eq hi.symm)]
  · rfl

theorem kind?_add (n : Node) (i : NodeId) :
    (a.add n).kind? i = if i = a.size then some n.kind else a.kind? i := by
  rw [kind?, node?_add]
  split <;> rfl

theorem kind?_add_of_some {kind : Kind} (h : a.kind? i = some kind) (n : Node) :
    (a.add n).kind? i = some kind := by
  rw [kind?_add, if_neg]
  · exact h
  · intro hi
    rw [kind?, node?_eq_none_iff.2 (Nat.le_of_eq hi.symm)] at h
    cases h

/-! ## Attaching a child -/

theorem attach?_guard (h : a.attach? p c = some b) :
    p < a.size ∧ c < a.size ∧ a.parent? c = none ∧ c ∉ a.lineage (a.size + 1) p := by
  unfold attach? at h
  split at h
  · assumption
  · cases h

theorem ne_of_attach? (h : a.attach? p c = some b) : c ≠ p := by
  rintro rfl
  exact (attach?_guard h).2.2.2 (by simp [lineage])

/-- Everything that attaching does, read at one node. -/
theorem node?_attach? (h : a.attach? p c = some b) (i : NodeId) :
    b.node? i = (a.node? i).map fun n =>
      { n with
        parent := if i = c then some p else n.parent
        children := if i = p then n.children ++ [c] else n.children } := by
  have hne := ne_of_attach? h
  unfold attach? at h
  split at h
  · cases h
    rw [node?_modify, node?_modify]
    by_cases hc : i = c
    · subst hc
      simp [hne, hne.symm]
    · by_cases hp : i = p
      · subst hp
        simp [hc, hne]
      · simp [hc, hp, Ne.symm hc, Ne.symm hp]
  · cases h

theorem size_attach? (h : a.attach? p c = some b) : b.size = a.size := by
  unfold attach? at h
  split at h
  · cases h
    simp
  · cases h

theorem children_attach? (h : a.attach? p c = some b) (i : NodeId) :
    b.children i = if i = p then a.children p ++ [c] else a.children i := by
  rw [children, node?_attach? h, Option.map_map]
  by_cases hi : i = p
  · subst hi
    obtain ⟨n, hn⟩ := exists_node? (attach?_guard h).1
    simp [children, hn]
  · simp only [if_neg hi, children]
    rfl

theorem parent?_attach? (h : a.attach? p c = some b) (i : NodeId) :
    b.parent? i = if i = c then some p else a.parent? i := by
  rw [parent?, node?_attach? h]
  by_cases hi : i = c
  · subst hi
    obtain ⟨n, hn⟩ := exists_node? (attach?_guard h).2.1
    simp [hn]
  · simp only [if_neg hi, parent?]
    cases a.node? i <;> rfl

theorem kind?_attach? (h : a.attach? p c = some b) (i : NodeId) : b.kind? i = a.kind? i := by
  rw [kind?, node?_attach? h, Option.map_map]
  rfl

theorem isChild_attach? (h : a.attach? p c = some b) :
    b.IsChild i j ↔ a.IsChild i j ∨ (i = c ∧ j = p) := by
  rw [IsChild, children_attach? h]
  by_cases hj : j = p
  · subst hj
    simp [IsChild]
  · simp [IsChild, hj]

/-! ## Lineages -/

theorem lineage_subset_succ (n : Nat) (i : NodeId) : a.lineage n i ⊆ a.lineage (n + 1) i := by
  induction n generalizing i with
  | zero => simp [lineage]
  | succ n ih =>
    rw [lineage, lineage]
    cases a.parent? i with
    | none => exact fun _ h => h
    | some p => exact List.cons_subset_cons _ (ih p)

theorem lineage_subset {m n : Nat} (h : m ≤ n) (i : NodeId) :
    a.lineage m i ⊆ a.lineage n i := by
  induction h with
  | refl => exact fun _ h => h
  | step _ ih => exact fun _ hj => lineage_subset_succ _ i (ih hj)

theorem lineage_succ_of_hasParent (h : a.HasParent i p) (n : Nat) :
    a.lineage (n + 1) i = i :: a.lineage n p := by
  rw [HasParent] at h
  simp [lineage, h]

theorem reaches_of_mem_lineage {n : Nat} (h : j ∈ a.lineage n i) :
    Relation.ReflTransGen a.HasParent i j := by
  induction n generalizing i with
  | zero => simp [lineage] at h
  | succ n ih =>
    rw [lineage] at h
    rcases List.mem_cons.1 h with rfl | h
    · exact .refl
    · cases hp : a.parent? i with
      | none => simp [hp] at h
      | some p =>
        rw [hp] at h
        exact (ih h).head hp

/-- A climb that comes to an end did not start on a cycle. -/
theorem not_cycle_of_reaches_end (hc : a.parent? c = none)
    (h : Relation.ReflTransGen a.HasParent i c) : ¬ Relation.TransGen a.HasParent i i := by
  induction h using Relation.ReflTransGen.head_induction_on with
  | refl =>
    intro hcycle
    obtain ⟨q, hq, _⟩ := Relation.TransGen.head'_iff.1 hcycle
    exact not_hasParent hc hq
  | head hstep _ ih =>
    intro hcycle
    obtain ⟨q, hq, hback⟩ := Relation.TransGen.head'_iff.1 hcycle
    -- there is one way up, so the cycle through `i` goes through the parent as well
    rw [hasParent_rightUnique a hq hstep] at hback
    exact ih (.tail' hback hstep)

/-- A climb from `i` that ends in `c` passes `n` different nodes before it. -/
theorem exists_climb (hc : a.parent? c = none) (h : Relation.ReflTransGen a.HasParent i c) :
    ∃ n, c ∈ a.lineage (n + 1) i ∧ (a.lineage n i).length = n ∧ (a.lineage n i).Nodup ∧
      ∀ j ∈ a.lineage n i, j < a.size := by
  induction h using Relation.ReflTransGen.head_induction_on with
  | refl => exact ⟨0, by simp [lineage]⟩
  | @head i p hstep hrest ih =>
    obtain ⟨n, hmem, hlen, hnodup, hlt⟩ := ih
    have hfresh : i ∉ a.lineage n p := by
      intro hi
      exact not_cycle_of_reaches_end hc (hrest.head hstep)
        (.head' hstep (reaches_of_mem_lineage hi))
    refine ⟨n + 1, ?_, ?_, ?_, ?_⟩
    · rw [lineage_succ_of_hasParent hstep]
      exact List.mem_cons_of_mem _ hmem
    · rw [lineage_succ_of_hasParent hstep, List.length_cons, hlen]
    · rw [lineage_succ_of_hasParent hstep]
      exact List.nodup_cons.2 ⟨hfresh, hnodup⟩
    · rw [lineage_succ_of_hasParent hstep]
      intro j hj
      rcases List.mem_cons.1 hj with rfl | hj
      · exact hstep.lt_size
      · exact hlt j hj

/-- Numbers below `n`, none of them twice: there are at most `n`. -/
theorem length_le_of_nodup_of_lt {l : List NodeId} {n : Nat} (hl : l.Nodup)
    (h : ∀ i ∈ l, i < n) : l.length ≤ n := by
  have hsub : l ⊆ List.range n := fun i hi => List.mem_range.2 (h i hi)
  simpa using (hl.subperm hsub).length_le

/-- For a node without a parent, `a.size + 1` entries of a lineage tell all. -/
theorem mem_lineage_iff (hc : a.parent? c = none) :
    c ∈ a.lineage (a.size + 1) p ↔ Relation.ReflTransGen a.HasParent p c := by
  constructor
  · exact reaches_of_mem_lineage
  · intro h
    obtain ⟨n, hmem, hlen, hnodup, hlt⟩ := exists_climb hc h
    have hn : n ≤ a.size := hlen ▸ length_le_of_nodup_of_lt hnodup hlt
    exact lineage_subset (Nat.succ_le_succ hn) p hmem

/-- When a child is attached. -/
theorem isSome_attach?_iff :
    (a.attach? p c).isSome ↔ p < a.size ∧ c < a.size ∧ a.parent? c = none ∧
      ¬ Relation.ReflTransGen a.HasParent p c := by
  unfold attach?
  constructor
  · intro h
    split at h
    · next hg =>
      exact ⟨hg.1, hg.2.1, hg.2.2.1, fun hr => hg.2.2.2 ((mem_lineage_iff hg.2.2.1).2 hr)⟩
    · cases h
  · rintro ⟨hp, hc, hn, hr⟩
    rw [if_pos ⟨hp, hc, hn, fun hm => hr ((mem_lineage_iff hn).1 hm)⟩]
    rfl

end ReturnHints.Arena
