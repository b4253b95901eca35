import ReturnHints.Proofs.Report

/-!
# One function of a report

What a function comes to in a report is decided by what the oracle says about it, and stands in
one place of the report.  So two oracles that only differ about the type of one function give
reports that only differ in the place of that function:

    functions   A ++ B₁ ++ C   against   A ++ B₂ ++ C
    skipped     D ++ E₁ ++ F   against   D ++ E₂ ++ F                        (ofFile_differs_at)

where the `Bᵢ` and `Eᵢ` are what the function itself comes to (`Report.Share`).
-/

namespace ReturnHints

variable {τ σ ι : Type}

/-! ## Oracles that differ about one node -/

/-- The two oracles give the same answer to every question but that for the type of `n`. -/
structure Oracle.AgreeOff (n : NodeId) (o₁ o₂ : Oracle τ σ ι) : Prop where
  typeAt : ∀ m, m ≠ n → o₁.typeAt m = o₂.typeAt m
  signatures : ∀ ty, o₁.signatures ty = o₂.signatures ty
  returnType : ∀ s, o₁.returnType s = o₂.returnType s
  render : ∀ ty, o₁.render ty = o₂.render ty
  symbolAt : ∀ m, o₁.symbolAt m = o₂.symbolAt m
  symbolName : ∀ s, o₁.symbolName s = o₂.symbolName s

namespace Oracle.AgreeOff

variable {n m : NodeId} {o₁ o₂ : Oracle τ σ ι} {f : File}

theorem declaredName_eq (h : AgreeOff n o₁ o₂) (f : File) (m : NodeId) :
    Signature.declaredName o₁ f m = Signature.declaredName o₂ f m := by
  unfold Signature.declaredName
  cases f.arena.name? m with
  | none => rfl
  | some nameNode =>
    simp only [h.symbolAt, h.symbolName]

theorem returnTypes_eq (h : AgreeOff n o₁ o₂) (m : NodeId) (i : Nat) (ss : List σ) :
    Signature.returnTypes o₁ m i ss = Signature.returnTypes o₂ m i ss := by
  induction ss generalizing i with
  | nil => rfl
  | cons s ss ih =>
    simp only [Signature.returnTypes, h.returnType, h.render, ih]

/-- About every other node the two oracles are asked the same and say the same. -/
theorem signatures_eq (h : AgreeOff n o₁ o₂) (hm : m ≠ n) :
    Signature.ofNode o₁ f m = Signature.ofNode o₂ f m := by
  simp only [Signature.ofNode, h.typeAt m hm, h.signatures, h.declaredName_eq, h.returnTypes_eq]

theorem hints_eq (h : AgreeOff n o₁ o₂) (hm : m ≠ n) :
    Hint.ofNode o₁ f m = Hint.ofNode o₂ f m := by
  rw [Hint.ofNode, h.signatures_eq hm, Hint.ofNode]

theorem found_eq (h : AgreeOff n o₁ o₂) (hm : m ≠ n) : Hint.found o₁ f m = Hint.found o₂ f m := by
  rw [Hint.found, h.hints_eq hm, Hint.found]

theorem failure_eq (h : AgreeOff n o₁ o₂) (hm : m ≠ n) :
    Failure.at? o₁ f m = Failure.at? o₂ f m := by
  rw [Failure.at?, h.hints_eq hm, Failure.at?]

end Oracle.AgreeOff

/-! ## The share of one function -/

/-- What a function comes to in a report: those of its hints that are kept, or one entry that says
why it was skipped. -/
def Report.Share (o : Oracle τ σ ι) (opts : Options) (f : File) (n : NodeId) (hints : List Hint)
    (skipped : List Skipped) : Prop :=
  (∃ all, (Hint.ofNode o f n).value = .ok all ∧ hints = all.filter opts.keeps ∧ skipped = []) ∨
  (hints = [] ∧ ∃ s, skipped = [s] ∧ Skipped.Reports o f n s)

variable {f : File} {n root : NodeId} {opts : Options}

theorem Report.share_of (o : Oracle τ σ ι) (opts : Options) (hn : f.arena.isFunction n = true) :
    Share o opts f n ((Hint.found o f n).filter opts.keeps)
      ((Failure.at? o f n).toList.map Skipped.of) := by
  rcases Hint.ofNode_cases o f n with ⟨fault, hfault, _, _, hfound, hat⟩ | ⟨_, hvalue, hat⟩
  · refine .inr ⟨by rw [hfound]; rfl, .of (.of f n fault), by rw [hat]; rfl, ?_⟩
    exact Skipped.reports_of hn hfault
  · exact .inl ⟨_, hvalue, rfl, by rw [hat]; rfl⟩

/-- The functions below a node are in the walk once each. -/
theorem Arena.Forest.exists_split {a : Arena} (h : a.Forest) (hn : a.isFunction n = true)
    (hbelow : Relation.TransGen a.IsChild n root) :
    ∃ front back, h.functions root = front ++ n :: back ∧ n ∉ front ∧ n ∉ back := by
  have hnodup := h.nodup_functions root
  obtain ⟨front, back, hsplit⟩ := List.append_of_mem (h.mem_functions_iff.2 ⟨hn, hbelow⟩)
  rw [hsplit] at hnodup
  refine ⟨front, back, hsplit, fun hfront => ?_, ?_⟩
  · exact (List.nodup_append.1 hnodup).2.2 n hfront n List.mem_cons_self rfl
  · exact (List.nodup_cons.1 (List.nodup_append.1 hnodup).2.1).1

/-- An isolating report cut at one of its functions. -/
theorem Report.value_ofFile_split (o : Oracle τ σ ι) {front back : List NodeId}
    (hopts : opts.isolateFailures = true) (hsplit : f.functions = front ++ n :: back) :
    (Report.ofFile o opts f).value = .ok
      { fileName := f.name
        functions := (front.flatMap fun m => (Hint.found o f m).filter opts.keeps) ++
          (Hint.found o f n).filter opts.keeps ++
          back.flatMap fun m => (Hint.found o f m).filter opts.keeps
        skipped := (front.filterMap (Failure.at? o f)).map Skipped.of ++
          (Failure.at? o f n).toList.map Skipped.of ++
          (back.filterMap (Failure.at? o f)).map Skipped.of } := by
  rw [value_ofFile, value_extend_isolating hopts, hsplit]
  simp only [List.nil_append, List.flatMap_append, List.flatMap_cons, List.append_assoc,
    List.filterMap_append, List.map_append]
  cases hat : Failure.at? o f n with
  | none => simp [hat]
  | some e => simp [hat]

/-- Failures are isolated: two oracles that differ only about the type of one function give, for
every file around it and every choice of what is kept, reports that differ only in the share of
that function. -/
theorem Report.ofFile_differs_at (es : List Edit) (name text : String) (root n : NodeId)
    (includeAnonymous skipAnnotated : Bool) (o₁ o₂ : Oracle τ σ ι)
    (hn : (Arena.ofEdits es).isFunction n = true)
    (hbelow : Relation.TransGen (Arena.ofEdits es).IsChild n root)
    (hsame : Oracle.AgreeOff n o₁ o₂) :
    let f : File := { name, text, arena := .ofEdits es, root }
    let opts : Options := { isolateFailures := true, includeAnonymous, skipAnnotated }
    ∃ A B₁ B₂ C D E₁ E₂ F,
      (Report.ofFile o₁ opts f).value = .ok
        { fileName := name, functions := A ++ B₁ ++ C, skipped := D ++ E₁ ++ F } ∧
      (Report.ofFile o₂ opts f).value = .ok
        { fileName := name, functions := A ++ B₂ ++ C, skipped := D ++ E₂ ++ F } ∧
      Report.Share o₁ opts f n B₁ E₁ ∧ Report.Share o₂ opts f n B₂ E₂ := by
  intro f opts
  obtain ⟨front, back, hfunctions, hfront, hback⟩ :=
    (Arena.forest_ofEdits es).exists_split hn hbelow
  have hsplit : f.functions = front ++ n :: back := by
    rw [← hfunctions]
    exact (Arena.forest_ofEdits es).functionsBelow_eq root
  have hne : ∀ {l : List NodeId}, n ∉ l → ∀ m ∈ l, m ≠ n := by
    rintro l hl m hm rfl
    exact hl hm
  -- the other functions come to the same with both oracles
  have hints : ∀ {l : List NodeId}, n ∉ l →
      (l.flatMap fun m => (Hint.found o₂ f m).filter opts.keeps) =
        l.flatMap fun m => (Hint.found o₁ f m).filter opts.keeps := by
    intro l hl
    refine List.flatMap_congr fun m hm => ?_
    rw [hsame.found_eq (hne hl m hm)]
  have skips : ∀ {l : List NodeId}, n ∉ l →
      l.filterMap (Failure.at? o₂ f) = l.filterMap (Failure.at? o₁ f) := by
    intro l hl
    refine List.filterMap_congr fun m hm => ?_
    rw [hsame.failure_eq (hne hl m hm)]
  have hisolate : opts.isolateFailures = true := rfl
  have h₁ := Report.value_ofFile_split o₁ hisolate hsplit
  have h₂ := Report.value_ofFile_split o₂ hisolate hsplit
  rw [hints hfront, hints hback, skips hfront, skips hback] at h₂
  exact ⟨_, _, _, _, _, _, _, _, h₁, h₂, Report.share_of o₁ opts hn, Report.share_of o₂ opts hn⟩

/-- The function in the middle of three nested ones fails with the second oracle. -/
theorem Report.ofFile_differs_at_middle :
    let es : List Edit := [.add .sourceFile 0 9 none none,
      .add .functionDeclaration 0 9 none none, .add .closeParenToken 1 2 none none,
      .add .functionExpression 2 8 none none, .add .closeParenToken 3 4 none none,
      .add .arrowFunction 5 7 none none, .attach 0 1, .attach 1 2, .attach 1 3, .attach 3 4,
      .attach 3 5]
    let t₁ : OracleTable := { types := [(1, .ok [.returns (.ok "A")]),
      (3, .ok [.returns (.ok "B"), .returns (.ok "C")]), (5, .ok [.returns (.ok "D")])] }
    let t₂ : OracleTable := { types := t₁.types ++ [(3, .error (.noType 3))] }
    let f : File := { name := "a.ts", text := "f()=>g()h", arena := .ofEdits es, root := 0 }
    let opts : Options :=
      { isolateFailures := true, includeAnonymous := true, skipAnnotated := true }
    Arena.functionsBelow f.arena f.root = [1, 3, 5] ∧ Oracle.AgreeOff 3 t₁.oracle t₂.oracle ∧
    ∃ A B₁ B₂ C D E₁ E₂ F,
      (Report.ofFile t₁.oracle opts f).value = .ok
        { fileName := "a.ts", functions := A ++ B₁ ++ C, skipped := D ++ E₁ ++ F } ∧
      (Report.ofFile t₂.oracle opts f).value = .ok
        { fileName := "a.ts", functions := A ++ B₂ ++ C, skipped := D ++ E₂ ++ F } ∧
      Report.Share t₁.oracle opts f 3 B₁ E₁ ∧ Report.Share t₂.oracle opts f 3 B₂ E₂ := by
  intro es t₁ t₂ f opts
  have hbelow : Relation.TransGen (Arena.ofEdits es).IsChild 3 0 := by
    have h₁ : 3 ∈ (Arena.ofEdits es).children 1 := by decide +kernel
    have h₀ : 1 ∈ (Arena.ofEdits es).children 0 := by decide +kernel
    exact .tail (.single h₁) h₀
  have hsame : Oracle.AgreeOff 3 t₁.oracle t₂.oracle := by
    refine ⟨fun m hm => ?_, fun _ => rfl, fun _ => rfl, fun _ => rfl, fun _ => rfl, fun _ => rfl⟩
    simp [OracleTable.oracle, OracleTable.lookup?, t₂, Ne.symm hm]
  exact ⟨by decide +kernel, hsame, Report.ofFile_differs_at es "a.ts" "f()=>g()h" 0 3 true true
    t₁.oracle t₂.oracle (by decide +kernel) hbelow hsame⟩

end ReturnHints
