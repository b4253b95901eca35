import ReturnHints.Proofs.Hint.Plan
import ReturnHints.Proofs.Tree.Forest

/-!
# A plan by the order of the children

A scan waits for a closing parenthesis and then for a colon, with anything in between, so it has
found both exactly if these two are a sublist of the kinds it has come through:

    s.through cs = annotated      ↔ s.awaited is a sublist of the kinds of cs
    s.through cs = seekingParen   ↔ s = seekingParen, and no parenthesis in cs

The plan for a node is read off the kinds of its direct children, and the place of an insertion off
the last closing parenthesis among them.
-/

namespace ReturnHints

/-- The kinds of the direct children of a node, from left to right. -/
def Arena.childKinds (a : Arena) (n : NodeId) : List Kind := (a.children n).filterMap a.kind?

namespace Plan

variable {s : Scan} {cs : List Node} {f g : File} {m n : NodeId} {type : String}

/-! ## What a scan waits for -/

/-- The kinds that a scan has still to come through until it is annotated. -/
def Scan.awaited : Scan → List Kind
  | seekingParen => [.closeParenToken, .colonToken]
  | seekingColon _ => [.colonToken]
  | annotated => []

/-- A kind that is not the next one awaited changes nothing. -/
theorem cons_sublist_cons_of_ne {k k' : Kind} {l kinds : List Kind} (h : k' ≠ k) :
    (k :: l).Sublist (k' :: kinds) ↔ (k :: l).Sublist kinds := by
  rw [List.cons_sublist_cons', or_iff_left]
  rintro ⟨heq, _⟩
  exact h heq.symm

theorem Scan.through_eq_annotated_iff (s : Scan) (cs : List Node) :
    s.through cs = annotated ↔ s.awaited.Sublist (cs.map Node.kind) := by
  fun_induction Scan.through s cs with
  | case1 => simp [awaited]
  | case2 s hs =>
    cases s with
    | seekingParen => simp [awaited]
    | seekingColon stop => simp [awaited]
    | annotated => exact absurd rfl hs
  | case3 c cs hc ih => rw [ih, List.map_cons, hc, awaited, awaited, List.cons_sublist_cons]
  | case4 c cs hc ih => rw [ih, List.map_cons, awaited, cons_sublist_cons_of_ne hc]
  | case5 old c cs hc ih =>
    rw [ih, List.map_cons, hc, awaited, awaited, cons_sublist_cons_of_ne (by decide)]
  | case6 old c cs _ hc => simp [awaited, hc]
  | case7 old c cs _ hc ih => rw [ih, List.map_cons, awaited, cons_sublist_cons_of_ne hc]

theorem Scan.through_eq_seekingParen_iff (s : Scan) (cs : List Node) :
    s.through cs = seekingParen ↔
      s = seekingParen ∧ Kind.closeParenToken ∉ cs.map Node.kind := by
  fun_induction Scan.through s cs with
  | case1 => simp
  | case2 s hs => simp
  | case3 c cs hc ih => simp [ih, hc]
  | case4 c cs hc ih =>
    rw [ih, List.map_cons, List.mem_cons, not_or]
    exact and_congr_right fun _ => ⟨fun h => ⟨fun heq => hc heq.symm, h⟩, And.right⟩
  | case5 old c cs hc ih => simp [ih]
  | case6 => simp
  | case7 old c cs _ _ ih => simp [ih]

/-- A scan reads the kinds and the ends of the nodes, and nothing else. -/
theorem Scan.through_congr {cs' : List Node}
    (h : cs.map (fun c => (c.kind, c.stop)) = cs'.map fun c => (c.kind, c.stop)) :
    s.through cs = s.through cs' := by
  induction cs generalizing s cs' with
  | nil =>
    rw [List.map_nil, eq_comm, List.map_eq_nil_iff] at h
    rw [h]
  | cons c cs ih =>
    cases cs' with
    | nil => cases h
    | cons d cs' =>
      simp only [List.map_cons, List.cons.injEq, Prod.mk.injEq] at h
      obtain ⟨⟨hkind, hstop⟩, hrest⟩ := h
      cases s with
      | annotated => rw [through, through]
      | seekingParen => rw [through, through, hkind, hstop, ih hrest, ih hrest]
      | seekingColon stop => rw [through, through, hkind, hstop, ih hrest, ih hrest]

/-! ## The plan -/

theorem map_kind_childNodes (a : Arena) (n : NodeId) :
    (childNodes a n).map Node.kind = a.childKinds n := by
  rw [childNodes, List.map_filterMap]
  rfl

theorem ofNode_eq_missingCloseParen_iff :
    ofNode f n type = missingCloseParen ↔ .closeParenToken ∉ f.arena.childKinds n := by
  have hscan := Scan.through_eq_seekingParen_iff .seekingParen (childNodes f.arena n)
  rw [map_kind_childNodes, eq_self, true_and] at hscan
  rw [← hscan, ofNode]
  cases Scan.through .seekingParen (childNodes f.arena n) <;> simp

theorem ofNode_eq_alreadyAnnotated_iff :
    ofNode f n type = alreadyAnnotated ↔
      [.closeParenToken, .colonToken].Sublist (f.arena.childKinds n) := by
  have hscan := Scan.through_eq_annotated_iff .seekingParen (childNodes f.arena n)
  rw [map_kind_childNodes, Scan.awaited] at hscan
  rw [← hscan, ofNode]
  cases Scan.through .seekingParen (childNodes f.arena n) <;> simp

/-- The plan with another text to be inserted at the same place. -/
def withText : Plan → String → Plan
  | insert i, text => insert { i with text }
  | plan, _ => plan

/-- The type is only copied into the text. -/
theorem ofNode_withText (f : File) (n : NodeId) (type type' : String) :
    ofNode f n type' = (ofNode f n type).withText (": " ++ type') := by
  unfold ofNode
  split <;> rfl

theorem ofNode_congr (htext : g.text = f.text)
    (hchildren : (childNodes g.arena m).map (fun c => (c.kind, c.stop)) =
      (childNodes f.arena n).map fun c => (c.kind, c.stop)) :
    ofNode g m type = ofNode f n type := by
  have hplace : ∀ o, g.positionOf o = f.positionOf o := by
    intro o
    rw [File.positionOf, File.positionOf, File.lines, File.lines, htext]
  unfold ofNode
  rw [Scan.through_congr hchildren]
  simp only [hplace]

/-- A plan is decided by the direct children of the node, whatever the type.  Without a closing
parenthesis among them there is nothing to go by.  With a colon somewhere behind a closing
parenthesis the type is there already, whatever follows.  Otherwise `: ` and the type go behind the
last closing parenthesis.  The text of the file and the kinds and ends of the children settle it,
and another type changes only the text to be inserted. -/
theorem ofNode_by_children (f : File) (n : NodeId) (type : String) :
    (ofNode f n type = missingCloseParen ↔ .closeParenToken ∉ f.arena.childKinds n) ∧
    (ofNode f n type = alreadyAnnotated ↔
      [.closeParenToken, .colonToken].Sublist (f.arena.childKinds n)) ∧
    (.closeParenToken ∈ f.arena.childKinds n →
      ¬ [.closeParenToken, .colonToken].Sublist (f.arena.childKinds n) →
      ∃ c tok, f.arena.lastCloseParen? n = some c ∧ f.arena.node? c = some tok ∧
        ofNode f n type = insert { position := f.positionOf tok.stop, text := ": " ++ type }) ∧
    (∀ type', ofNode f n type' = (ofNode f n type).withText (": " ++ type')) ∧
    ∀ (g : File) (m : NodeId), g.text = f.text →
      (childNodes g.arena m).map (fun c => (c.kind, c.stop)) =
        (childNodes f.arena n).map (fun c => (c.kind, c.stop)) →
      ofNode g m type = ofNode f n type := by
  refine ⟨ofNode_eq_missingCloseParen_iff, ofNode_eq_alreadyAnnotated_iff, fun hparen hcolon => ?_,
    ofNode_withText f n type, fun g m => ofNode_congr⟩
  cases hplan : ofNode f n type with
  | missingCloseParen => exact absurd hparen (ofNode_eq_missingCloseParen_iff.1 hplan)
  | alreadyAnnotated => exact absurd (ofNode_eq_alreadyAnnotated_iff.1 hplan) hcolon
  | insert i =>
    obtain ⟨c, tok, hc, htok, hposition⟩ := exists_of_ofNode_eq_insert hplan
    have htext := ofNode_withText f n type type
    rw [hplan, withText, insert.injEq] at htext
    refine ⟨c, tok, hc, htok, ?_⟩
    rw [htext, hposition]

/-- A function with a colon in front of two closing parentheses, one with a colon between two, and
the first one in an arena with one more colon elsewhere. -/
theorem ofNode_by_children_colons :
    let es : List Edit := [.add .functionExpression 0 4 none none, .add .colonToken 0 1 none none,
      .add .closeParenToken 1 2 none none, .add .identifier 2 3 none none,
      .add .closeParenToken 3 4 none none, .attach 0 1, .attach 0 2, .attach 0 3, .attach 0 4,
      .add .functionExpression 4 7 none none, .add .closeParenToken 4 5 none none,
      .add .colonToken 5 6 none none, .add .closeParenToken 6 7 none none, .attach 5 6,
      .attach 5 7, .attach 5 8]
    let f : File := { name := "a.ts", text := ":)x)):)", arena := .ofEdits es, root := 0 }
    let g : File := { f with arena := .ofEdits (es ++ [.add .colonToken 6 7 none none]) }
    (∃ c tok, f.arena.lastCloseParen? 0 = some c ∧ f.arena.node? c = some tok ∧
      ofNode f 0 "T" = insert { position := f.positionOf tok.stop, text := ": T" }) ∧
    ofNode f 5 "T" = alreadyAnnotated ∧ ofNode f NodeId.absent "T" = missingCloseParen ∧
    ofNode g 0 "T" = ofNode f 0 "T" := by
  intro es f g
  obtain ⟨_, _, hinsert, _, hsame⟩ := ofNode_by_children f 0 "T"
  refine ⟨hinsert (by decide) (by decide), (ofNode_by_children f 5 "T").2.1.2 (by decide),
    (ofNode_by_children f NodeId.absent "T").1.2 (by decide), hsame g 0 rfl (by decide)⟩

end Plan

end ReturnHints
