import Mathlib.Data.List.Forall2
import ReturnHints.Proofs.Tree.Preorder
import ReturnHints.Report

/-!
# Three ways over the functions of a file

A report that isolates failures goes through all functions, a report that does not ends at the
first failure, and `Hint.ofFile` lists the functions first and then asks for the hints of each.
What each function comes to does not depend on the others, so all three can be read off the list
of functions `ns`:

    isolating   the hints of all of ns, one entry for each failure   (value_extend_isolating)
    strict      the first failure in ns, or else all the hints       (value_extend_strict)
    eager       the same                                             (value_ofNodes)
-/

namespace ReturnHints

open Log (Traced)

variable {τ σ ι : Type}

/-! ## One function -/

/-- The hints of a function; a function that fails has none. -/
def Hint.found (o : Oracle τ σ ι) (f : File) (n : NodeId) : List Hint :=
  match (Hint.ofNode o f n).value with
  | .ok hints => hints
  | .error _ => []

/-- The failure of a function, if it fails. -/
def Failure.at? (o : Oracle τ σ ι) (f : File) (n : NodeId) : Option Failure :=
  match (Hint.ofNode o f n).value with
  | .ok _ => none
  | .error e => some e

/-- Whether the oracle fails a function. -/
def Signature.fails (o : Oracle τ σ ι) (f : File) (n : NodeId) : Bool :=
  !(Signature.ofNode o f n).value.isOk

variable {o : Oracle τ σ ι} {f : File} {n : NodeId} {opts : Options}

theorem Hint.value_ofNode (o : Oracle τ σ ι) (f : File) (n : NodeId) :
    (Hint.ofNode o f n).value =
      match (Signature.ofNode o f n).value with
      | .error fault => .error (.of f n fault)
      | .ok signatures => .ok (Hint.ofSignatures f n signatures).value := by
  rw [Hint.ofNode, Traced.value_bind]
  cases (Signature.ofNode o f n).value <;> rfl

/-- A function fails with the oracle's fault, or it has all its hints. -/
theorem Hint.ofNode_cases (o : Oracle τ σ ι) (f : File) (n : NodeId) :
    (∃ fault, (Signature.ofNode o f n).value = .error fault ∧ Signature.fails o f n = true ∧
      (Hint.ofNode o f n).value = .error (.of f n fault) ∧ Hint.found o f n = [] ∧
      Failure.at? o f n = some (.of f n fault)) ∨
    (Signature.fails o f n = false ∧ (Hint.ofNode o f n).value = .ok (Hint.found o f n) ∧
      Failure.at? o f n = none) := by
  cases h : (Signature.ofNode o f n).value with
  | error fault =>
    have hvalue : (Hint.ofNode o f n).value = .error (.of f n fault) := by
      rw [Hint.value_ofNode, h]
    exact .inl ⟨fault, rfl, by simp [Signature.fails, h, Except.isOk, Except.toBool], hvalue,
      by simp [Hint.found, hvalue], by simp [Failure.at?, hvalue]⟩
  | ok signatures =>
    have hvalue : (Hint.ofNode o f n).value = .ok (Hint.ofSignatures f n signatures).value := by
      rw [Hint.value_ofNode, h]
    exact .inr ⟨by simp [Signature.fails, h, Except.isOk, Except.toBool],
      by simp [Hint.found, hvalue], by simp [Failure.at?, hvalue]⟩

/-! ## Many functions -/

/-- The eager way. -/
theorem Hint.value_ofNodes (o : Oracle τ σ ι) (f : File) (ns : List NodeId) :
    (Hint.ofNodes o f ns).value =
      match ns.findSome? (Failure.at? o f) with
      | some e => .error e
      | none => .ok (ns.flatMap (Hint.found o f)) := by
  induction ns with
  | nil => rfl
  | cons n ns ih =>
    rw [Hint.ofNodes, Traced.value_bind]
    rcases Hint.ofNode_cases o f n with ⟨fault, _, _, hvalue, _, hat⟩ | ⟨_, hvalue, hat⟩
    · rw [hvalue, List.findSome?_cons, hat]
      rfl
    · rw [hvalue, List.findSome?_cons, hat]
      show ((Hint.ofNodes o f ns).value).map _ = _
      rw [ih]
      cases ns.findSome? (Failure.at? o f) <;> rfl

/-- One step of a report. -/
theorem Report.value_extend_cons (o : Oracle τ σ ι) (opts : Options) (f : File) (n : NodeId)
    (ns : List NodeId) (r : Report) :
    (extend o opts f (n :: ns) r).value =
      match Failure.at? o f n with
      | none =>
        (extend o opts f ns
          { r with functions := r.functions ++ (Hint.found o f n).filter opts.keeps }).value
      | some e =>
        if opts.isolateFailures then
          (extend o opts f ns { r with skipped := r.skipped ++ [.of e] }).value
        else .error e := by
  rw [extend, Traced.value_bind, Traced.value_bind]
  rcases Hint.ofNode_cases o f n with ⟨fault, _, _, hvalue, _, hat⟩ | ⟨_, hvalue, hat⟩
  · rw [hvalue, hat]
    by_cases hopts : opts.isolateFailures = true
    · simp [hopts]
    · simp [hopts]
  · rw [hvalue, hat]

/-- The isolating way. -/
theorem Report.value_extend_isolating (hopts : opts.isolateFailures = true) (ns : List NodeId)
    (r : Report) :
    (extend o opts f ns r).value = .ok
      { r with
        functions := r.functions ++ ns.flatMap fun n => (Hint.found o f n).filter opts.keeps
        skipped := r.skipped ++ (ns.filterMap (Failure.at? o f)).map Skipped.of } := by
  induction ns generalizing r with
  | nil => simp [extend]
  | cons n ns ih =>
    rw [value_extend_cons]
    rcases Hint.ofNode_cases o f n with ⟨fault, _, _, _, hfound, hat⟩ | ⟨_, _, hat⟩
    · simp [hat, hopts, ih, hfound]
    · simp [hat, ih]

/-- The strict way. -/
theorem Report.value_extend_strict (hopts : opts.isolateFailures = false) (ns : List NodeId)
    (r : Report) :
    (extend o opts f ns r).value =
      match ns.findSome? (Failure.at? o f) with
      | some e => .error e
      | none => .ok { r with
        functions := r.functions ++ ns.flatMap fun n => (Hint.found o f n).filter opts.keeps } := by
  induction ns generalizing r with
  | nil => simp [extend]
  | cons n ns ih =>
    rw [value_extend_cons]
    rcases Hint.ofNode_cases o f n with ⟨fault, _, _, _, _, hat⟩ | ⟨_, _, hat⟩
    · simp [hat, hopts]
    · simp [hat, ih]

/-! ## A whole file -/

theorem Walk.value_collect (a : Arena) (w : Walk) : (w.collect a).value = w.toList a := by
  have hall : ∀ ns : List NodeId, (a.announceAll ns).value = ns := by
    intro ns
    induction ns with
    | nil => rfl
    | cons n ns ih =>
      rw [Arena.announceAll, Traced.value_bind, Traced.value_bind, Traced.value_pure, ih]
  exact hall _

theorem Hint.value_ofFile (o : Oracle τ σ ι) (f : File) :
    (Hint.ofFile o f).value = (Hint.ofNodes o f f.functions).value := by
  rw [Hint.ofFile, Traced.value_bind, Walk.value_collect]
  rfl

theorem Report.value_ofFile (o : Oracle τ σ ι) (opts : Options) (f : File) :
    (Report.ofFile o opts f).value =
      (extend o opts f f.functions { fileName := f.name }).value := by
  rw [Report.ofFile, Traced.value_bind, Traced.value_bind]
  cases (extend o opts f f.functions { fileName := f.name }).value <;> rfl

/-- By default every hint is kept. -/
theorem Options.filter_keeps_default (isolateFailures : Bool) (hints : List Hint) :
    hints.filter ({ isolateFailures } : Options).keeps = hints := by
  rw [List.filter_eq_self]
  intro h _
  rfl

/-! ## What the lists hold -/

/-- The entry of a failed function: its kind, its start and the oracle's message. -/
def Skipped.Reports (o : Oracle τ σ ι) (f : File) (n : NodeId) (s : Skipped) : Prop :=
  ∃ node fault, f.arena.node? n = some node ∧ node.kind.isFunctionLike = true ∧
    (Signature.ofNode o f n).value = .error fault ∧
    s = { kind := node.kind, position := f.positionOf node.start, message := fault.message }

theorem Skipped.reports_of {fault : TypeFault} (hn : f.arena.isFunction n = true)
    (hfault : (Signature.ofNode o f n).value = .error fault) :
    Skipped.Reports o f n (.of (.of f n fault)) := by
  obtain ⟨node, hnode, hkind⟩ := Arena.isFunction_iff.1 hn
  refine ⟨node, fault, hnode, hkind, hfault, ?_⟩
  simp [Skipped.of, Failure.of, hnode]

/-- One entry for each function that fails. -/
theorem Skipped.forall₂_reports (o : Oracle τ σ ι) (f : File) {ns : List NodeId}
    (hns : ∀ n ∈ ns, f.arena.isFunction n = true) :
    List.Forall₂ (Skipped.Reports o f) (ns.filter (Signature.fails o f))
      ((ns.filterMap (Failure.at? o f)).map Skipped.of) := by
  induction ns with
  | nil => exact .nil
  | cons n ns ih =>
    have hrest := ih fun m hm => hns m (List.mem_cons_of_mem n hm)
    rcases Hint.ofNode_cases o f n with ⟨fault, hfault, hfails, _, _, hat⟩ | ⟨hfails, _, hat⟩
    · rw [List.filter_cons_of_pos hfails, List.filterMap_cons_some hat, List.map_cons]
      exact .cons (Skipped.reports_of (hns n List.mem_cons_self) hfault) hrest
    · rw [List.filter_cons_of_neg (by simp [hfails]), List.filterMap_cons_none hat]
      exact hrest

/-- The hints of each function that does not fail. -/
theorem Hint.exists_parts (o : Oracle τ σ ι) (f : File) (ns : List NodeId) :
    ∃ parts, List.Forall₂ (fun n hints => (Hint.ofNode o f n).value = .ok hints)
        (ns.filter fun n => !Signature.fails o f n) parts ∧
      ns.flatMap (Hint.found o f) = parts.flatten := by
  induction ns with
  | nil => exact ⟨[], .nil, rfl⟩
  | cons n ns ih =>
    obtain ⟨parts, hparts, hflat⟩ := ih
    rw [List.flatMap_cons, hflat]
    rcases Hint.ofNode_cases o f n with ⟨_, _, hfails, _, hfound, _⟩ | ⟨hfails, hvalue, _⟩
    · rw [List.filter_cons_of_neg (by simp [hfails]), hfound]
      exact ⟨parts, hparts, rfl⟩
    · rw [List.filter_cons_of_pos (by simp [hfails])]
      exact ⟨Hint.found o f n :: parts, .cons hvalue hparts, rfl⟩

/-- The first failure is that of the first function that fails. -/
theorem Failure.first_at? {ns : List NodeId} {e : Failure}
    (h : ns.findSome? (Failure.at? o f) = some e) :
    ns.find? (Signature.fails o f) = some e.function ∧
      (Signature.ofNode o f e.function).value = .error e.fault := by
  induction ns with
  | nil => cases h
  | cons n ns ih =>
    rw [List.findSome?_cons] at h
    rcases Hint.ofNode_cases o f n with ⟨fault, hfault, hfails, _, _, hat⟩ | ⟨hfails, _, hat⟩
    · rw [hat] at h
      obtain rfl := Option.some.inj h
      exact ⟨List.find?_cons_of_pos hfails, hfault⟩
    · rw [hat] at h
      rw [List.find?_cons_of_neg (by simp [hfails])]
      exact ih h

/-! ## The three ways agree -/

theorem Arena.isFunction_of_mem_functions {a : Arena} (h : a.Forest) {root : NodeId}
    (hn : n ∈ h.functions root) : a.isFunction n = true :=
  (h.mem_functions_iff.1 hn).1

/-- Over every file and for every oracle: a report that isolates failures always comes out, with
the hints of the functions that do not fail and an entry for each one that does, in the order of
the walk.  The eager way gives the same hints if nothing was skipped, and else the failure behind
the first entry; the strict report does what the eager way does. -/
theorem Report.ofFile_agrees (es : List Edit) (name text : String) (root : NodeId)
    (o : Oracle τ σ ι) :
    let f : File := { name, text, arena := .ofEdits es, root }
    let ns := (Arena.forest_ofEdits es).functions root
    ∃ r, (Report.ofFile o {} f).value = .ok r ∧ r.fileName = name ∧
      (∃ parts, List.Forall₂ (fun n hints => (Hint.ofNode o f n).value = .ok hints)
          (ns.filter fun n => !Signature.fails o f n) parts ∧ r.functions = parts.flatten) ∧
      List.Forall₂ (Skipped.Reports o f) (ns.filter (Signature.fails o f)) r.skipped ∧
      (∀ hints, (Hint.ofFile o f).value = .ok hints ↔ r.skipped = [] ∧ hints = r.functions) ∧
      (r.skipped = [] ∨ ∃ e, (Hint.ofFile o f).value = .error e ∧
        ns.find? (Signature.fails o f) = some e.function ∧
        (Signature.ofNode o f e.function).value = .error e.fault ∧
        r.skipped.head? =
          some { kind := e.kind, position := e.position, message := e.fault.message }) ∧
      (Report.ofFile o { isolateFailures := false } f).value =
        (Hint.ofFile o f).value.map fun hints =>
          { fileName := name, functions := hints, skipped := [] } := by
  intro f ns
  have hwalk : f.functions = ns := (Arena.forest_ofEdits es).functionsBelow_eq root
  have hfunction : ∀ n ∈ ns, f.arena.isFunction n = true := fun n hn =>
    Arena.isFunction_of_mem_functions _ hn
  have heager := Hint.value_ofNodes o f ns
  rw [← hwalk, ← Hint.value_ofFile, hwalk] at heager
  obtain ⟨parts, hparts, hflat⟩ := Hint.exists_parts o f ns
  let r : Report :=
    { fileName := name
      functions := ns.flatMap (Hint.found o f)
      skipped := (ns.filterMap (Failure.at? o f)).map Skipped.of }
  refine ⟨r, ?_, rfl, ⟨parts, hparts, hflat⟩, Skipped.forall₂_reports o f hfunction, ?_, ?_, ?_⟩
  · rw [Report.value_ofFile, hwalk, Report.value_extend_isolating rfl]
    simp only [Options.filter_keeps_default, List.nil_append]
    rfl
  · intro hints
    rw [heager, List.map_eq_nil_iff, ← List.head?_eq_none_iff, List.head?_filterMap]
    cases ns.findSome? (Failure.at? o f) with
    | none => simp [r, eq_comm]
    | some e => simp
  · rw [heager, List.map_eq_nil_iff, ← List.head?_eq_none_iff, List.head?_map,
      List.head?_filterMap]
    cases hfirst : ns.findSome? (Failure.at? o f) with
    | none => exact .inl rfl
    | some e =>
      obtain ⟨hfind, hfault⟩ := Failure.first_at? hfirst
      exact .inr ⟨e, rfl, hfind, hfault, rfl⟩
  · rw [heager, Report.value_ofFile, hwalk, Report.value_extend_strict rfl]
    cases ns.findSome? (Failure.at? o f) with
    | none =>
      simp only [Options.filter_keeps_default, List.nil_append]
      rfl
    | some e => rfl

end ReturnHints
