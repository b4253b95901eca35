import Mathlib.Data.List.Induction
import ReturnHints.Hint.Plan

/-!
# What a plan has found among the children

A scan that still looks for a colon at its end remembers where the last closing parenthesis has
ended, so an insertion goes right behind that one:

    ofNode f n type = insert i → i.position = place of the end of f.arena.lastCloseParen? n
-/

namespace ReturnHints

/-- The last closing parenthesis among the direct children of a node. -/
def Arena.lastCloseParen? (a : Arena) (n : NodeId) : Option NodeId :=
  ((a.children n).filter fun c => a.kind? c = some .closeParenToken).getLast?

namespace Plan

/-- The end that a scan remembers. -/
def Scan.stop? : Scan → Option Nat
  | seekingColon stop => some stop
  | seekingParen | annotated => none

/-- A scan remembers the end of the last closing parenthesis it has come through, or else the
end it has started with. -/
theorem Scan.stop?_of_through {s : Scan} {cs : List Node} {stop : Nat}
    (h : s.through cs = seekingColon stop) :
    (((cs.filter (·.kind = .closeParenToken)).getLast?).map Node.stop).or s.stop? = some stop := by
  -- a parenthesis in front is the last one only if no other follows
  have behind : ∀ {c : Node} {l : List Node},
      ((l.getLast?).map Node.stop).or (some c.stop) = some stop →
      (((c :: l).getLast?).map Node.stop) = some stop := by
    intro c l hl
    rw [List.getLast?_cons]
    cases hlast : l.getLast? with
    | none => simpa [hlast] using hl
    | some d => simpa [hlast] using hl
  fun_induction Scan.through s cs with
  | case1 => cases h
  | case2 s => simp [h, Scan.stop?]
  | case3 c cs hc ih =>
    rw [List.filter_cons_of_pos (by simpa using hc), behind (ih h)]
    rfl
  | case4 c cs hc ih =>
    rw [List.filter_cons_of_neg (by simpa using hc)]
    exact ih h
  | case5 old c cs hc ih =>
    rw [List.filter_cons_of_pos (by simpa using hc), behind (ih h)]
    rfl
  | case6 => cases h
  | case7 old c cs hc _ ih =>
    rw [List.filter_cons_of_neg (by simpa using hc)]
    exact ih h

theorem getLast?_closeParens (a : Arena) (n : NodeId) :
    ((childNodes a n).filter (·.kind = .closeParenToken)).getLast? =
      (a.lastCloseParen? n).bind a.node? := by
  unfold childNodes Arena.lastCloseParen?
  -- on the children from the last one backwards: the first parenthesis met decides on both sides
  induction a.children n using List.reverseRecOn with
  | nil => rfl
  | append_singleton l c ih =>
    rw [List.filterMap_append, List.filter_append, List.filter_append]
    cases hc : a.node? c with
    | none =>
      have hk : a.kind? c ≠ some .closeParenToken := by simp [Arena.kind?, hc]
      simpa [hc, hk] using ih
    | some tok =>
      have hk : a.kind? c = some tok.kind := by simp [Arena.kind?, hc]
      by_cases hp : tok.kind = .closeParenToken
      · simp [hc, hk, hp]
      · simpa [hc, hk, hp] using ih

/-- An insertion goes right behind the last closing parenthesis. -/
theorem exists_of_ofNode_eq_insert {f : File} {n : NodeId} {type : String} {i : Insertion}
    (h : ofNode f n type = insert i) :
    ∃ c tok, f.arena.lastCloseParen? n = some c ∧ f.arena.node? c = some tok ∧
      i.position = f.positionOf tok.stop := by
  unfold ofNode at h
  split at h
  · cases h
  · next stop hscan =>
    have hstop := Scan.stop?_of_through hscan
    rw [getLast?_closeParens, Scan.stop?, Option.or_none] at hstop
    obtain ⟨tok, htok, rfl⟩ := Option.map_eq_some_iff.1 hstop
    obtain ⟨c, hc, hnode⟩ := Option.bind_eq_some_iff.1 htok
    cases h
    exact ⟨c, tok, hc, hnode, rfl⟩
  · cases h

end Plan

end ReturnHints
