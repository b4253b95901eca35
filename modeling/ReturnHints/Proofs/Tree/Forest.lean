import Mathlib.Data.List.Nodup
import Mathlib.Order.WellFounded
import ReturnHints.Proofs.Tree.Links

/-!
# The child lists of an arena form a forest

An arena is grown by edits: nodes are added, with whatever name and parent the caller has put
into them, and children are attached.  `attach?` climbs along the parents while everyone else
goes down along the child lists, and a parent that was put in by hand, perhaps before its node
was there, stands in no child list.  So the two directions are kept apart:

    Forest a : every child has its list's owner as parent, no list has a child twice,
               and a rank falls from each owner to its children
    (ofEdits es).Forest                                                      (forest_ofEdits)
    no edit of es sets a parent → (a.HasParent c p ↔ a.IsChild c p)

Nothing is asked of the parents put in by hand, not even that they form no cycle.
-/

namespace ReturnHints

/-- A change of an arena.  A node is added without children. -/
inductive Edit
  | add (kind : Kind) (start stop : Nat) (name parent : Option NodeId)
  | attach (parent child : NodeId)
deriving DecidableEq

/-- Whether a node is added with a parent put in by hand. -/
def Edit.setsParent : Edit → Bool
  | .add _ _ _ _ parent => parent.isSome
  | .attach _ _ => false

namespace Arena

/-- The arena after an edit; a refused one changes nothing. -/
def edit (a : Arena) : Edit → Arena
  | .add kind start stop name parent => a.add { kind, start, stop, name, parent }
  | .attach p c => (a.attach? p c).getD a

/-- The arena that edits make of the empty one. -/
def ofEdits (es : List Edit) : Arena := es.foldl edit empty

variable {a b : Arena} {i j p q c d : NodeId}

theorem ofEdits_snoc (es : List Edit) (e : Edit) : ofEdits (es ++ [e]) = (ofEdits es).edit e := by
  rw [ofEdits, List.foldl_append]
  rfl

/-! ## What an edit can do -/

theorem edit_attach_cases (a : Arena) (p c : NodeId) :
    a.edit (.attach p c) = a ∨ ∃ b, a.attach? p c = some b ∧ a.edit (.attach p c) = b := by
  cases h : a.attach? p c with
  | none => exact .inl (by simp [edit, h])
  | some b => exact .inr ⟨b, rfl, by simp [edit, h]⟩

theorem isChild_empty : ¬ empty.IsChild c p := by
  rw [IsChild, children_eq_nil_of_le (Nat.zero_le p)]
  exact List.not_mem_nil

theorem isChild_add (n : Node) (hn : n.children = []) : (a.add n).IsChild c p ↔ a.IsChild c p := by
  rw [IsChild, children_add n hn, IsChild]

/-! ## Forests -/

/-- The child lists form a forest. -/
structure Forest (a : Arena) : Prop where
  hasParent : ∀ {c p}, a.IsChild c p → a.HasParent c p
  nodup : ∀ p, (a.children p).Nodup
  ranked : ∃ rank : NodeId → Nat, ∀ {c p}, a.IsChild c p → rank c < rank p

namespace Forest

theorem child_lt_size (h : a.Forest) (hc : a.IsChild c p) : c < a.size :=
  (h.hasParent hc).lt_size

theorem owner_unique (h : a.Forest) (hp : a.IsChild c p) (hq : a.IsChild c q) : p = q :=
  hasParent_rightUnique a (h.hasParent hp) (h.hasParent hq)

theorem wellFounded (h : a.Forest) : WellFounded a.IsChild := by
  obtain ⟨rank, hrank⟩ := h.ranked
  exact Subrelation.wf (fun hc => hrank hc) (InvImage.wf rank Nat.lt_wfRel.wf)

theorem not_below_self (h : a.Forest) : ¬ Relation.TransGen a.IsChild i i := by
  intro hi
  exact h.wellFounded.transGen.asymmetric i i hi hi

/-- Climbing along child lists is climbing along parents. -/
theorem reaches_of_isChild (h : a.Forest) (hij : Relation.ReflTransGen a.IsChild i j) :
    Relation.ReflTransGen a.HasParent i j :=
  Relation.ReflTransGen.mono (fun _ _ hc => h.hasParent hc) i j hij

theorem nodup_all_children (h : a.Forest) : ((List.range a.size).flatMap a.children).Nodup := by
  refine List.nodup_flatMap.2 ⟨fun p _ => h.nodup p, ?_⟩
  refine List.nodup_range.imp ?_
  intro p q hpq c hp hq
  exact hpq (h.owner_unique hp hq)

/-! ## Edits keep a forest -/

protected theorem empty : empty.Forest where
  hasParent hc := absurd hc isChild_empty
  nodup p := by
    rw [children_eq_nil_of_le (Nat.zero_le p)]
    exact List.nodup_nil
  ranked := ⟨fun _ => 0, fun hc => absurd hc isChild_empty⟩

protected theorem add (h : a.Forest) (n : Node) (hn : n.children = []) : (a.add n).Forest where
  hasParent := by
    intro c p hc
    rw [isChild_add n hn] at hc
    rw [HasParent, parent?_add, if_neg (Nat.ne_of_lt (h.child_lt_size hc))]
    exact h.hasParent hc
  nodup p := by
    rw [children_add n hn]
    exact h.nodup p
  ranked := by
    obtain ⟨rank, hrank⟩ := h.ranked
    exact ⟨rank, fun hc => hrank ((isChild_add n hn).1 hc)⟩

/-- The ranks after `c` was attached to `p`: `p` and all above it rise over `c`. -/
theorem ranked_attach (h : a.Forest) (hb : a.attach? p c = some b) :
    ∃ rank : NodeId → Nat, ∀ {d q}, b.IsChild d q → rank d < rank q := by
  classical
  obtain ⟨rank, hrank⟩ := h.ranked
  obtain ⟨_, _, hc, hlin⟩ := attach?_guard hb
  have hpc : ¬ Relation.ReflTransGen a.IsChild p c := fun hr =>
    hlin ((mem_lineage_iff hc).2 (h.reaches_of_isChild hr))
  refine ⟨fun x => if Relation.ReflTransGen a.IsChild p x then rank x + rank c + 1 else rank x, ?_⟩
  intro d q hdq
  show (if _ then _ else _) < (if _ then _ else _)
  rcases (isChild_attach? hb).1 hdq with hold | ⟨rfl, rfl⟩
  · have hlt := hrank hold
    by_cases hd : Relation.ReflTransGen a.IsChild p d
    · rw [if_pos hd, if_pos (hd.tail hold)]
      omega
    · rw [if_neg hd]
      by_cases hq : Relation.ReflTransGen a.IsChild p q
      · rw [if_pos hq]
        omega
      · rw [if_neg hq]
        exact hlt
  · rw [if_neg hpc, if_pos .refl]
    omega

protected theorem attach (h : a.Forest) (hb : a.attach? p c = some b) : b.Forest where
  hasParent := by
    obtain ⟨_, _, hc, _⟩ := attach?_guard hb
    intro d q hdq
    rw [HasParent, parent?_attach? hb]
    rcases (isChild_attach? hb).1 hdq with hold | ⟨rfl, rfl⟩
    · have hd := h.hasParent hold
      rw [if_neg]
      · exact hd
      · rintro rfl
        exact not_hasParent hc hd
    · exact if_pos rfl
  nodup q := by
    obtain ⟨_, _, hc, _⟩ := attach?_guard hb
    rw [children_attach? hb]
    split
    · have hnew : c ∉ a.children p := fun hmem => not_hasParent hc (h.hasParent hmem)
      exact List.nodup_append.2 ⟨h.nodup p, List.nodup_singleton c, by
        intro x hx y hy hxy
        rw [List.mem_singleton] at hy
        exact hnew (hy ▸ hxy ▸ hx)⟩
    · exact h.nodup q
  ranked := h.ranked_attach hb

protected theorem edit (h : a.Forest) (e : Edit) : (a.edit e).Forest := by
  cases e with
  | add kind start stop name parent => exact h.add _ rfl
  | attach p c =>
    rcases edit_attach_cases a p c with heq | ⟨b, hb, heq⟩
    · rw [heq]
      exact h
    · rw [heq]
      exact h.attach hb

end Forest

theorem forest_ofEdits (es : List Edit) : (ofEdits es).Forest :=
  List.foldlRecOn es edit .empty fun _ h e _ => h.edit e

/-! ## Parents that nobody put in by hand -/

/-- Every parent has its child in its list. -/
def Linked (a : Arena) : Prop := ∀ c p, a.HasParent c p → a.IsChild c p

protected theorem Linked.edit (h : a.Linked) (e : Edit) (he : e.setsParent = false) :
    (a.edit e).Linked := by
  intro d q hdq
  cases e with
  | add kind start stop name parent =>
    rw [edit, HasParent, parent?_add] at hdq
    split at hdq
    · rw [Edit.setsParent] at he
      simp only at hdq
      simp [hdq] at he
    · exact (isChild_add _ rfl).2 (h d q hdq)
  | attach p c =>
    rcases edit_attach_cases a p c with heq | ⟨b, hb, heq⟩
    · rw [heq] at hdq ⊢
      exact h d q hdq
    · rw [heq] at hdq ⊢
      rw [HasParent, parent?_attach? hb] at hdq
      rw [isChild_attach? hb]
      split at hdq
      · next hd => exact .inr ⟨hd, (Option.some.inj hdq).symm⟩
      · exact .inl (h d q hdq)

theorem linked_ofEdits {es : List Edit} (hes : ∀ e ∈ es, e.setsParent = false) :
    (ofEdits es).Linked :=
  List.foldlRecOn es edit (fun _ _ h => absurd h.lt_size (Nat.not_lt_zero _))
    fun _ h e he => h.edit e (hes e he)

/-! ## All edits -/

/-- Whatever edits made the arena: child lists name nodes, no node stands in them twice, a child
has the owner of its list as parent, and nothing is below itself.  If no parent was put in by
hand, a node also stands in the list of its parent. -/
theorem children_ofEdits_forest (es : List Edit) :
    (∀ p, ∀ c ∈ (ofEdits es).children p, c < (ofEdits es).size) ∧
    ((List.range (ofEdits es).size).flatMap (ofEdits es).children).Nodup ∧
    (∀ p, ∀ c ∈ (ofEdits es).children p, (ofEdits es).parent? c = some p) ∧
    (∀ i, ¬ Relation.TransGen (fun p c => c ∈ (ofEdits es).children p) i i) ∧
    ((∀ e ∈ es, e.setsParent = false) →
      ∀ p c, (ofEdits es).parent? c = some p → c ∈ (ofEdits es).children p) := by
  have h := forest_ofEdits es
  refine ⟨fun p c hc => h.child_lt_size hc, h.nodup_all_children, fun p c hc => h.hasParent hc,
    fun i hi => ?_, fun hes p c hc => linked_ofEdits hes c p hc⟩
  exact h.not_below_self (Relation.transGen_swap.1 hi)

/-- A list that refuses a second parent and a cycle. -/
theorem children_ofEdits_forest_family :
    let es : List Edit := [.add .sourceFile 0 0 none none, .add .block 0 0 none none,
      .add .block 0 0 none none, .attach 0 1, .attach 2 1, .attach 1 0, .attach 1 2]
    (∀ e ∈ es, e.setsParent = false) ∧ (ofEdits es).parent? 2 = some 1 ∧
      2 ∈ (ofEdits es).children 1 := by
  refine ⟨by decide, by decide, ?_⟩
  exact (children_ofEdits_forest _).2.2.2.2 (by decide) 1 2 (by decide)

end Arena

end ReturnHints
