import ReturnHints.Proofs.Hint.Plan
import ReturnHints.Proofs.Session.Lexeme

/-!
# Where insertions go in a file that was built along its text

A closing parenthesis that was placed by its lexeme ends at a boundary of the text, and boundaries
do not share places.  So the place of an insertion stands for one offset only, the one behind the
parenthesis, and two functions never get the same place: they do not share a parenthesis, and of
two parentheses one ends behind the other.
-/

namespace ReturnHints.Session

variable {s : Session} {f : File} {c i n : NodeId} {kind : Kind} {log : List (Call × Answer)}
  {e : Call × Answer} {lexeme : String} {stop : Nat}

/-! ## Closing parentheses -/

theorem mem_children_of_lastCloseParen? {a : Arena} (h : a.lastCloseParen? n = some c) :
    a.IsChild c n ∧ a.kind? c = some .closeParenToken := by
  have hmem := List.mem_filter.1 (List.mem_of_getLast? h)
  exact ⟨hmem.1, of_decide_eq_true hmem.2⟩

theorem answer_of_placed? (h : placed? e = some (kind, i)) : e.2.result = .ok (some i) := by
  unfold placed? at h
  split at h
  · next hr =>
    cases h
    exact hr
  · cases h

/-- Every child was placed by some call. -/
theorem Recorded.exists_placed {p : NodeId} (h : Recorded log s) (hc : s.arena.IsChild c p)
    (hkind : s.arena.kind? c = some kind) : ∃ e ∈ log, placed? e = some (kind, c) := by
  have hlt := (h.sound.numbered.lt_of_hasParent (h.sound.numbered.isChild_iff.1 hc)).2
  have hmem : c ∈ (placed log).map Prod.snd := by
    rw [h.numbers]
    exact List.mem_range.2 hlt
  obtain ⟨⟨kind', c'⟩, hplaced, rfl⟩ := List.mem_map.1 hmem
  have hkind' := h.kinds _ hplaced
  rw [hkind] at hkind'
  obtain rfl := Option.some.inj hkind'
  exact List.mem_filterMap.1 hplaced

/-- A token that covers its lexeme ends at a boundary, right behind the lexeme. -/
theorem Stands.boundary (h : s.Stands lexeme c stop) (hf : s.file = .ok f) :
    ∃ tok, f.arena.node? c = some tok ∧ tok.stop = stop ∧
      Text.isBoundary f.text.toList stop = true ∧
      ∃ upTo, Text.takeBytes? f.text.toList stop = some upTo ∧ lexeme.toList <:+ upTo := by
  obtain ⟨_, tok, htok, rfl, hslice⟩ := h
  obtain ⟨front, rest, htext, _, hstop⟩ := Text.slice?_eq_some_iff.1 hslice
  rw [(file_eq_ok hf).1, text_file hf, htext, ← hstop]
  exact ⟨tok, htok, hstop.symm, Text.isBoundary_append _ _, _, Text.takeBytes?_append _ _,
    List.suffix_append _ _⟩

/-! ## The place of an insertion -/

/-- The place of an insertion behind a parenthesis that was placed by its lexeme is the place of
one boundary of the text only: the end of that token, up to which the text ends with the lexeme.
(The calls may also give the bytes of other tokens.) -/
theorem insertion_behind_closeParen (fileName text : String) (calls : List Call) (f : File)
    (hf : ((begin fileName text).after calls).file = .ok f) (n : NodeId) (type : String)
    (i : Insertion) (hplan : Plan.ofNode f n type = .insert i) (c : NodeId)
    (hc : f.arena.lastCloseParen? n = some c) (lexeme : String) (cursor : Nat)
    (hplaced : (.lexeme .closeParenToken lexeme, ⟨.ok (some c), cursor⟩) ∈
      (begin fileName text).transcript calls) :
    ∃ tok, f.arena.node? c = some tok ∧
      (∀ o, Text.isBoundary text.toList o = true ∧ o ≤ Text.byteLength text.toList ∧
        f.positionOf o = i.position ↔ o = tok.stop) ∧
      ∃ upTo, Text.takeBytes? text.toList tok.stop = some upTo ∧ lexeme.toList <:+ upTo := by
  have htext : f.text = text := (text_file hf).trans (text_after fileName text calls)
  have hstands := stands_transcript fileName text calls _ hplaced lexeme c rfl rfl
  obtain ⟨tok, htok, rfl, hboundary, hupTo⟩ := hstands.boundary hf
  obtain ⟨c', tok', hc', htok', hposition⟩ := Plan.exists_of_ofNode_eq_insert hplan
  rw [hc] at hc'
  obtain rfl := Option.some.inj hc'
  rw [htok] at htok'
  obtain rfl := Option.some.inj htok'
  rw [htext] at hboundary hupTo
  refine ⟨tok, htok, fun o => ⟨fun ho => ?_, ?_⟩, hupTo⟩
  · refine LineMap.positionOf_inj ho.1 hboundary ?_
    rw [← htext]
    exact ho.2.2.trans hposition
  · rintro rfl
    exact ⟨hboundary, Text.le_byteLength_of_isBoundary hboundary, hposition.symm⟩

/-- A rocket, which has four bytes and two units, and a break of two characters before the
parenthesis. -/
theorem insertion_behind_closeParen_second_line :
    let text := "🚀\r\nf(é)"
    let calls : List Call := [.start .sourceFile, .start .functionDeclaration, .name "f",
      .lexeme .openParenToken "(", .lexeme .parameter "é", .lexeme .closeParenToken ")", .finish,
      .finish]
    let s := (begin "a.ts" text).after calls
    let f : File := { name := "a.ts", text, arena := s.arena, root := 0 }
    s.file = .ok f ∧
      Plan.ofNode f 1 "void" = .insert { position := ⟨1, 4⟩, text := ": void" } ∧
      ∃ tok, f.arena.node? 5 = some tok ∧
        (∀ o, Text.isBoundary text.toList o = true ∧ o ≤ Text.byteLength text.toList ∧
          f.positionOf o = ⟨1, 4⟩ ↔ o = tok.stop) ∧
        ∃ upTo, Text.takeBytes? text.toList tok.stop = some upTo ∧ ")".toList <:+ upTo := by
  intro text calls s f
  have hf : s.file = .ok f := by decide +kernel
  have hplan : Plan.ofNode f 1 "void" = .insert { position := ⟨1, 4⟩, text := ": void" } := by
    decide +kernel
  exact ⟨hf, hplan, insertion_behind_closeParen "a.ts" text calls f hf 1 "void" _ hplan 5
    (by decide +kernel) ")" 11 (by decide +kernel)⟩

/-! ## Two insertions -/

/-- Every closing parenthesis was placed by a lexeme that is not empty. -/
def ParensSpelled (log : List (Call × Answer)) : Prop :=
  ∀ e ∈ log, ∀ i, placed? e = some (.closeParenToken, i) →
    ∃ lexeme, lexeme ≠ "" ∧ e.1 = .lexeme .closeParenToken lexeme

/-- An insertion goes where the call that has found its parenthesis has left the cursor. -/
theorem exists_call_of_insert {fileName text : String} {calls : List Call} {type : String}
    {j : Insertion} (hparens : ParensSpelled ((begin fileName text).transcript calls))
    (hf : ((begin fileName text).after calls).file = .ok f)
    (hplan : Plan.ofNode f n type = .insert j) :
    ∃ c, f.arena.IsChild c n ∧ ∃ e ∈ (begin fileName text).transcript calls,
      placed? e = some (.closeParenToken, c) ∧ Finds e ∧
      Text.isBoundary f.text.toList e.2.cursor = true ∧
      j.position = f.positionOf e.2.cursor := by
  have harena := (file_eq_ok hf).1
  obtain ⟨c, tok, hc, htok, hposition⟩ := Plan.exists_of_ofNode_eq_insert hplan
  obtain ⟨hchild, hkind⟩ := mem_children_of_lastCloseParen? hc
  obtain ⟨e, he, hplaced⟩ := (recorded fileName text calls).exists_placed
    (harena ▸ hchild) (harena ▸ hkind)
  obtain ⟨lexeme, hne, hcall⟩ := hparens e he c hplaced
  have hsought : e.1.sought? = some lexeme := by rw [hcall]; rfl
  have hanswer := answer_of_placed? hplaced
  obtain ⟨tok', htok', hstop, hboundary, _⟩ :=
    (stands_transcript fileName text calls e he lexeme c hsought hanswer).boundary hf
  rw [htok] at htok'
  obtain rfl := Option.some.inj htok'
  rw [hstop] at hposition
  exact ⟨c, hchild, e, he, hplaced, ⟨lexeme, c, hne, hsought, hanswer⟩, hboundary, hposition⟩

/-- Two functions get different places, if the bytes of all tokens were found by their lexemes
and no closing parenthesis is empty. -/
theorem insertion_positions_differ (fileName text : String) (calls : List Call)
    (hcalls : ∀ c ∈ calls, c.hasSpan = false)
    (hparens : ParensSpelled ((begin fileName text).transcript calls)) (f : File)
    (hf : ((begin fileName text).after calls).file = .ok f) (m n : NodeId) (hmn : m ≠ n)
    (type type' : String) (i j : Insertion) (hm : Plan.ofNode f m type = .insert i)
    (hn : Plan.ofNode f n type' = .insert j) : i.position ≠ j.position := by
  obtain ⟨c, hc, e, he, hplaced, hfinds, hboundary, hi⟩ := exists_call_of_insert hparens hf hm
  obtain ⟨d, hd, e', he', hplaced', hfinds', hboundary', hj⟩ := exists_call_of_insert hparens hf hn
  -- one call for both would be one parenthesis under two nodes
  have hne : e ≠ e' := by
    rintro rfl
    rw [hplaced] at hplaced'
    cases hplaced'
    have hforest := (recorded fileName text calls).sound.numbered.forest
    rw [← (file_eq_ok hf).1] at hforest
    exact hmn (hforest.owner_unique hc hd)
  intro heq
  rw [hi, hj] at heq
  exact cursor_ne_of_finds hcalls he he' hne hfinds hfinds'
    (LineMap.positionOf_inj hboundary hboundary' heq)

/-- A callback within the parentheses of a call within a function's parentheses: three closing
parentheses stand side by side, and two of them belong to functions.  A fourth one is not found. -/
theorem insertion_positions_differ_nested :
    let text := "f(g(()))"
    let calls : List Call := [.start .sourceFile, .start .functionDeclaration, .name "f",
      .lexeme .openParenToken "(", .start .callExpression, .lexeme .identifier "g",
      .lexeme .openParenToken "(", .start .arrowFunction, .lexeme .openParenToken "(",
      .lexeme .closeParenToken ")", .finish, .lexeme .closeParenToken ")", .finish,
      .lexeme .closeParenToken ")", .finish, .lexeme .closeParenToken ")", .finish]
    let s := (begin "a.ts" text).after calls
    let f : File := { name := "a.ts", text, arena := s.arena, root := 0 }
    s.file = .ok f ∧
      Plan.ofNode f 1 "void" = .insert { position := ⟨0, 8⟩, text := ": void" } ∧
      Plan.ofNode f 7 "void" = .insert { position := ⟨0, 6⟩, text := ": void" } ∧
      (⟨0, 8⟩ : Position) ≠ ⟨0, 6⟩ := by
  intro text calls s f
  have hf : s.file = .ok f := by decide +kernel
  have houter : Plan.ofNode f 1 "void" = .insert { position := ⟨0, 8⟩, text := ": void" } := by
    decide +kernel
  have hinner : Plan.ofNode f 7 "void" = .insert { position := ⟨0, 6⟩, text := ": void" } := by
    decide +kernel
  have hparens : ∀ e ∈ (begin "a.ts" text).transcript calls,
      (placed? e).map Prod.fst = some .closeParenToken →
        e.1 = .lexeme .closeParenToken ")" := by
    decide +kernel
  refine ⟨hf, houter, hinner, insertion_positions_differ "a.ts" text calls (by decide)
    (fun e he i hplaced => ⟨")", by decide, hparens e he (by rw [hplaced]; rfl)⟩) f hf 1 7
    (by decide) _ _ _ _ houter hinner⟩

end ReturnHints.Session
