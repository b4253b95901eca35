import ReturnHints.Proofs.Hint.Children

/-!
# A plan while its arena grows

The plan for a node can be asked for at every point of a run of edits.  A scan reads the kinds and
ends of the direct children, no edit changes them, and a new child comes behind the others.  So an
edit either leaves the scan as it was, or makes it go on over one more node:

    scanOf (a.edit e) n = scanOf a n, or e attaches tok to n and
    scanOf (a.edit e) n = (scanOf a n).through [tok]                         (scanOf_edit)

Read as plans, one more child takes a plan to `plan.next`, which never falls back (`rank_le_next`).
-/

namespace ReturnHints.Plan

variable {a b : Arena} {n p c : NodeId}

/-! ## Scans that go on -/

theorem Scan.through_append (s : Scan) (cs ds : List Node) :
    s.through (cs ++ ds) = (s.through cs).through ds := by
  fun_induction Scan.through s cs with
  | case1 => rw [through, through]
  | case2 => rfl
  | case3 c cs hc ih => rw [List.cons_append, through, if_pos hc, ih]
  | case4 c cs hc ih => rw [List.cons_append, through, if_neg hc, ih]
  | case5 old c cs hc ih => rw [List.cons_append, through, if_pos hc, ih]
  | case6 old c cs hc hcolon =>
    rw [List.cons_append, through, through, if_neg hc, if_pos hcolon]
  | case7 old c cs hc hcolon ih =>
    rw [List.cons_append, through, if_neg hc, if_neg hcolon, ih]

/-! ## What a scan sees after an edit -/

/-- What a scan can see of the node with a number. -/
def face? (a : Arena) (i : NodeId) : Option (Kind × Nat) :=
  (a.node? i).map fun m => (m.kind, m.stop)

theorem map_face_childNodes (a : Arena) (n : NodeId) :
    (childNodes a n).map (fun m => (m.kind, m.stop)) = (a.children n).filterMap (face? a) := by
  rw [childNodes, List.map_filterMap]
  rfl

theorem face?_add {m : Node} (hc : c < a.size) : face? (a.add m) c = face? a c := by
  rw [face?, Arena.node?_add, if_neg (Nat.ne_of_lt hc), face?]

theorem face?_attach? (hb : a.attach? p c = some b) (i : NodeId) : face? b i = face? a i := by
  rw [face?, Arena.node?_attach? hb, Option.map_map]
  rfl

/-- The scan over the children of a node. -/
def scanOf (a : Arena) (n : NodeId) : Scan := Scan.through .seekingParen (childNodes a n)

theorem scanOf_add (h : a.Forest) {m : Node} (hm : m.children = []) :
    scanOf (a.add m) n = scanOf a n := by
  refine Scan.through_congr ?_
  rw [map_face_childNodes, map_face_childNodes, Arena.children_add m hm]
  exact List.filterMap_congr fun c hc => face?_add (h.child_lt_size hc)

theorem scanOf_attach?_of_ne (hb : a.attach? p c = some b) (hn : n ≠ p) :
    scanOf b n = scanOf a n := by
  refine Scan.through_congr ?_
  rw [map_face_childNodes, map_face_childNodes, Arena.children_attach? hb, if_neg hn]
  exact List.filterMap_congr fun i _ => face?_attach? hb i

/-- A new child is the next one that the scan comes to. -/
theorem scanOf_attach? {tok : Node} (hb : a.attach? n c = some b) (htok : a.node? c = some tok) :
    scanOf b n = (scanOf a n).through [tok] := by
  rw [scanOf, scanOf, ← Scan.through_append]
  refine Scan.through_congr ?_
  rw [List.map_append, map_face_childNodes, map_face_childNodes, Arena.children_attach? hb,
    if_pos rfl, List.filterMap_append]
  have hface : face? b c = some (tok.kind, tok.stop) := by
    rw [face?_attach? hb, face?, htok]
    rfl
  congr 1
  · exact List.filterMap_congr fun i _ => face?_attach? hb i
  · rw [List.filterMap_cons_some hface]
    rfl

/-- All that an edit can do to a scan. -/
theorem scanOf_edit (h : a.Forest) (e : Edit) (n : NodeId) :
    scanOf (a.edit e) n = scanOf a n ∨
      ∃ c tok, e = .attach n c ∧ (a.attach? n c).isSome ∧ a.node? c = some tok ∧
        scanOf (a.edit e) n = (scanOf a n).through [tok] := by
  cases e with
  | add kind start stop name parent => exact .inl (scanOf_add h rfl)
  | attach p c =>
    rcases Arena.edit_attach_cases a p c with heq | ⟨b, hb, heq⟩
    · exact .inl (by rw [heq])
    · by_cases hn : n = p
      · subst hn
        obtain ⟨tok, htok⟩ := Arena.exists_node? (Arena.attach?_guard hb).2.1
        refine .inr ⟨c, tok, rfl, by rw [hb]; rfl, htok, ?_⟩
        rw [heq, scanOf_attach? hb htok]
      · rw [heq]
        exact .inl (scanOf_attach?_of_ne hb hn)

/-! ## One more child -/

/-- What one more child of the node makes of its plan. -/
def next (f : File) (type : String) (tok : Node) : Plan → Plan
  | alreadyAnnotated => alreadyAnnotated
  | insert i =>
    if tok.kind = .closeParenToken then
      insert { position := f.positionOf tok.stop, text := ": " ++ type }
    else if tok.kind = .colonToken then alreadyAnnotated
    else insert i
  | missingCloseParen =>
    if tok.kind = .closeParenToken then
      insert { position := f.positionOf tok.stop, text := ": " ++ type }
    else missingCloseParen

/-- The order of the outcomes: no closing parenthesis, an insertion, a type that is there. -/
def rank : Plan → Nat
  | missingCloseParen => 0
  | insert _ => 1
  | alreadyAnnotated => 2

theorem rank_le_two (plan : Plan) : plan.rank ≤ 2 := by
  cases plan <;> simp [rank]

theorem rank_eq_two_iff {plan : Plan} : plan.rank = 2 ↔ plan = alreadyAnnotated := by
  cases plan <;> simp [rank]

theorem rank_le_next (f : File) (type : String) (tok : Node) (plan : Plan) :
    plan.rank ≤ (plan.next f type tok).rank := by
  cases plan with
  | missingCloseParen => exact Nat.zero_le _
  | insert i =>
    rw [next]
    split
    · exact Nat.le_refl 1
    · split
      · exact Nat.le_succ 1
      · exact Nat.le_refl 1
  | alreadyAnnotated => exact Nat.le_refl 2

theorem ofNode_of_scanOf_eq {f : File} {type : String} (h : scanOf b n = scanOf a n) :
    ofNode { f with arena := b } n type = ofNode { f with arena := a } n type := by
  unfold scanOf at h
  unfold ofNode
  rw [h]
  rfl

theorem ofNode_of_scanOf_through {f : File} {type : String} {tok : Node}
    (h : scanOf b n = (scanOf a n).through [tok]) :
    ofNode { f with arena := b } n type =
      (ofNode { f with arena := a } n type).next f type tok := by
  unfold scanOf at h
  unfold ofNode
  rw [h]
  cases Scan.through .seekingParen (childNodes a n) with
  | annotated => simp only [Scan.through, next]
  | seekingParen =>
    simp only [Scan.through, next]
    by_cases hparen : tok.kind = .closeParenToken
    · simp only [if_pos hparen]
      rfl
    · simp only [if_neg hparen]
  | seekingColon stop =>
    simp only [Scan.through, next]
    by_cases hparen : tok.kind = .closeParenToken
    · simp only [if_pos hparen]
      rfl
    · by_cases hcolon : tok.kind = .colonToken
      · simp only [if_neg hparen, if_pos hcolon]
      · simp only [if_neg hparen, if_neg hcolon]
        rfl

/-! ## Runs of edits -/

/-- The plan for a node of a file, once edits have made its arena. -/
def afterEdits (f : File) (n : NodeId) (type : String) (es : List Edit) : Plan :=
  ofNode { f with arena := .ofEdits es } n type

theorem afterEdits_snoc (f : File) (n : NodeId) (type : String) (es : List Edit) (e : Edit) :
    afterEdits f n type (es ++ [e]) = afterEdits f n type es ∨
      ∃ c tok, e = .attach n c ∧ ((Arena.ofEdits es).attach? n c).isSome ∧
        (Arena.ofEdits es).node? c = some tok ∧
        afterEdits f n type (es ++ [e]) = (afterEdits f n type es).next f type tok := by
  rw [afterEdits, afterEdits, Arena.ofEdits_snoc]
  rcases scanOf_edit (Arena.forest_ofEdits es) e n with heq | ⟨c, tok, he, hsome, htok, heq⟩
  · exact .inl (ofNode_of_scanOf_eq heq)
  · exact .inr ⟨c, tok, he, hsome, htok, ofNode_of_scanOf_through heq⟩

theorem rank_afterEdits_le (f : File) (n : NodeId) (type : String) (es later : List Edit) :
    (afterEdits f n type es).rank ≤ (afterEdits f n type (es ++ later)).rank := by
  induction later using List.reverseRecOn with
  | nil => rw [List.append_nil]
  | append_singleton later e ih =>
    rw [← List.append_assoc]
    refine Nat.le_trans ih ?_
    rcases afterEdits_snoc f n type (es ++ later) e with heq | ⟨_, tok, _, _, _, heq⟩
    · rw [heq]
    · rw [heq]
      exact rank_le_next f type tok _

/-- Over every run of edits, the plan for a node changes only where a child is attached to the node
itself, as that child says, and it never falls back: once the type is there, no later edit brings an
insertion again, wherever in the arena it is. -/
theorem afterEdits_never_falls_back (f : File) (n : NodeId) (type : String) (es later : List Edit) :
    (∀ e, afterEdits f n type (es ++ [e]) = afterEdits f n type es ∨
      ∃ c tok, e = .attach n c ∧ ((Arena.ofEdits es).attach? n c).isSome ∧
        (Arena.ofEdits es).node? c = some tok ∧
        afterEdits f n type (es ++ [e]) = (afterEdits f n type es).next f type tok) ∧
    (afterEdits f n type es).rank ≤ (afterEdits f n type (es ++ later)).rank ∧
    (afterEdits f n type es = alreadyAnnotated →
      afterEdits f n type (es ++ later) = alreadyAnnotated) := by
  have hrank := rank_afterEdits_le f n type es later
  refine ⟨afterEdits_snoc f n type es, hrank, fun hes => ?_⟩
  have htop := rank_le_two (afterEdits f n type (es ++ later))
  rw [← rank_eq_two_iff] at hes ⊢
  omega

/-- A function gets a parenthesis, then a colon.  A parenthesis behind the colon, another one
further down, and an attachment that is refused change nothing any more. -/
theorem afterEdits_never_falls_back_colon :
    let es : List Edit := [.add .functionExpression 0 6 none none,
      .add .closeParenToken 1 2 none none, .add .colonToken 2 3 none none,
      .add .block 3 6 none none, .attach 0 1]
    let later : List Edit := [.attach 0 3, .add .closeParenToken 4 5 none none,
      .add .closeParenToken 5 6 none none, .attach 3 4, .attach 0 5, .attach 0 4]
    let f : File := { name := "a.ts", text := "():b))", arena := .empty, root := 0 }
    (afterEdits f 0 "T" []).rank < (afterEdits f 0 "T" es).rank ∧
    afterEdits f 0 "T" (es ++ [.attach 0 2]) = alreadyAnnotated ∧
    afterEdits f 0 "T" (es ++ [.attach 0 2] ++ later) = alreadyAnnotated := by
  intro es later f
  have hes : afterEdits f 0 "T" (es ++ [.attach 0 2]) = alreadyAnnotated := by decide +kernel
  have hlater := (afterEdits_never_falls_back f 0 "T" (es ++ [.attach 0 2]) later).2.2 hes
  exact ⟨by decide +kernel, hes, hlater⟩

end ReturnHints.Plan
