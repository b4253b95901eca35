import ReturnHints.Proofs.Report

/-!
# Options that only select

While a report grows, the hints of each function are filtered as they come.  The filter looks at one
hint at a time, and failures do not pass through it, so it may as well be applied once, to the
report in which every hint was kept:

    (ofFile o opts f).value = (ofFile o opts.keepingAll f).value.map (select opts)
-/

namespace ReturnHints

variable {τ σ ι : Type}

/-- The options with the same choice about failures, and every hint kept. -/
def Options.keepingAll (opts : Options) : Options := { isolateFailures := opts.isolateFailures }

@[simp] theorem Options.isolateFailures_keepingAll (opts : Options) :
    opts.keepingAll.isolateFailures = opts.isolateFailures := rfl

@[simp] theorem Options.filter_keepingAll (opts : Options) (hints : List Hint) :
    hints.filter opts.keepingAll.keeps = hints :=
  filter_keeps_default opts.isolateFailures hints

/-- A hint is dropped for one of two reasons. -/
theorem Options.keeps_eq (opts : Options) (h : Hint) :
    opts.keeps h = !((!opts.includeAnonymous && h.name.isNone) ||
      (opts.skipAnnotated && h.insertion.isNone)) := by
  unfold keeps
  cases h.name <;> cases h.insertion <;> simp

namespace Report

/-- The report without the hints that the options drop. -/
def select (opts : Options) (r : Report) : Report :=
  { r with functions := r.functions.filter opts.keeps }

/-! ## One filter for the whole report -/

theorem value_extend_select (o : Oracle τ σ ι) (opts : Options) (f : File) (ns : List NodeId)
    (r : Report) :
    (extend o opts f ns (r.select opts)).value =
      (extend o opts.keepingAll f ns r).value.map (select opts) := by
  induction ns generalizing r with
  | nil => rfl
  | cons n ns ih =>
    rw [value_extend_cons, value_extend_cons, Options.isolateFailures_keepingAll,
      Options.filter_keepingAll]
    cases Failure.at? o f n with
    | none =>
      -- the hints of `n` are filtered before they are added, or with all the others at the end
      have hselect : { r.select opts with
            functions := (r.select opts).functions ++ (Hint.found o f n).filter opts.keeps } =
          select opts { r with functions := r.functions ++ Hint.found o f n } := by
        simp [select]
      simp only [hselect]
      exact ih _
    | some e =>
      by_cases hopts : opts.isolateFailures = true
      · simp only [if_pos hopts]
        exact ih { r with skipped := r.skipped ++ [.of e] }
      · simp only [if_neg hopts]
        rfl

theorem value_ofFile_select (o : Oracle τ σ ι) (opts : Options) (f : File) :
    (ofFile o opts f).value = (ofFile o opts.keepingAll f).value.map (select opts) := by
  rw [value_ofFile, value_ofFile]
  exact value_extend_select o opts f f.functions { fileName := f.name }

/-! ## The insertions of a selection -/

/-- A hint without an insertion adds nothing to the insertions, kept or not. -/
theorem insertions_select (opts : Options) (r : Report) :
    (r.select opts).insertions =
      r.functions.filterMap fun h =>
        if opts.includeAnonymous || h.name.isSome then h.insertion else none := by
  rw [insertions, select, List.filterMap_filter]
  refine List.filterMap_congr fun h _ => ?_
  cases hins : h.insertion with
  | none => simp
  | some i => simp [Options.keeps, hins]

theorem insertionCount_select {opts : Options} (hopts : opts.skipAnnotated = true) (r : Report) :
    (r.select opts).insertionCount = (r.select opts).functions.length := by
  rw [insertionCount, insertions, List.length_filterMap_eq_countP, List.countP_eq_length]
  intro h hmem
  have hkeeps := (List.mem_filter.1 hmem).2
  simp only [Options.keeps, hopts, Bool.not_true, Bool.false_or, Bool.and_eq_true] at hkeeps
  exact hkeeps.2

/-- For every file, oracle and choice about failures, what is kept is selected from the report
with everything: there is the same failure or the same list of skipped functions, and the hints are
the same in the same order, without those that have no name, unless these are kept, and without
those that have no insertion, if these are dropped.  So dropping hints without an insertion never
changes the insertions, and leaves as many hints as insertions. -/
theorem ofFile_selects (o : Oracle τ σ ι) (f : File)
    (isolateFailures includeAnonymous skipAnnotated : Bool) :
    (ofFile o { isolateFailures, includeAnonymous, skipAnnotated } f).value =
      (ofFile o { isolateFailures } f).value.map (fun r =>
        { fileName := r.fileName
          functions := r.functions.filter fun h =>
            !((!includeAnonymous && h.name.isNone) || (skipAnnotated && h.insertion.isNone))
          skipped := r.skipped }) ∧
    (ofFile o { isolateFailures, includeAnonymous, skipAnnotated } f).value.map insertions =
      (ofFile o { isolateFailures, includeAnonymous, skipAnnotated := !skipAnnotated } f).value.map
        insertions ∧
    (ofFile o { isolateFailures, includeAnonymous, skipAnnotated := true } f).value.map
        insertionCount =
      (ofFile o { isolateFailures, includeAnonymous, skipAnnotated := true } f).value.map
        (·.functions.length) := by
  have hselect := fun skip => value_ofFile_select o
    { isolateFailures, includeAnonymous, skipAnnotated := skip } f
  simp only [hselect, Options.keepingAll]
  cases (ofFile o { isolateFailures } f).value with
  | error e => exact ⟨rfl, rfl, rfl⟩
  | ok r =>
    refine ⟨?_, ?_, ?_⟩
    · simp only [Except.map, select, funext (Options.keeps_eq _)]
    · simp only [Except.map, insertions_select]
    · simp only [Except.map, insertionCount_select]

end Report

end ReturnHints
