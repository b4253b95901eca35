import ReturnHints.Proofs.Report

/-!
# All signatures of a function, or none

The oracle is asked about one signature after the other, for the return type and then for its text.
The first answer that is a fault ends it, and nothing is kept of the signatures before.  Without a
fault there is one hint for each signature:

    o.typeAt n = .error _        asked [typeAt n]; the fault
    s is the first that fails    asked up to the question that fails; its fault
    all have a text              the hints, with the same name and at the same place

`Hint.ofNode_all_or_nothing` has these three cases for every file, node and oracle.
-/

namespace ReturnHints

open Log (Traced)

variable {τ σ ι : Type} {f : File} {n : NodeId}

/-! ## One signature -/

/-- The oracle gives the signature a return type and its text. -/
def Oracle.Renders (o : Oracle τ σ ι) (s : σ) (text : String) : Prop :=
  ∃ ty, o.returnType s = .ok ty ∧ o.render ty = .ok text

/-- What is asked about signature `i` of a function if all goes well. -/
def Question.about (n : NodeId) (i : Nat) : List Question := [.returnType n i, .render n i]

/-- The oracle fails the signature, which is number `i`, at the last of the questions. -/
inductive Oracle.Fails (o : Oracle τ σ ι) (n : NodeId) (i : Nat) (s : σ) :
    TypeFault → List Question → Prop
  | returnType {fault} : o.returnType s = .error fault → Fails o n i s fault [.returnType n i]
  | render {ty fault} : o.returnType s = .ok ty → o.render ty = .error fault →
      Fails o n i s fault [.returnType n i, .render n i]

/-! ## One signature after the other -/

/-- The signatures up to the first that fails, or all of them. -/
theorem Signature.returnTypes_cases (o : Oracle τ σ ι) (n : NodeId) (i : Nat) (ss : List σ) :
    (∃ front s rest fault qs, ss = front ++ s :: rest ∧
      (∀ t ∈ front, ∃ text, o.Renders t text) ∧ o.Fails n (i + front.length) s fault qs ∧
      (returnTypes o n i ss).value = .error fault ∧
      (returnTypes o n i ss).questions =
        (List.range' i front.length).flatMap (Question.about n) ++ qs) ∨
    (∃ texts, List.Forall₂ o.Renders ss texts ∧ (returnTypes o n i ss).value = .ok texts ∧
      (returnTypes o n i ss).questions =
        (List.range' i ss.length).flatMap (Question.about n)) := by
  induction ss generalizing i with
  | nil => exact .inr ⟨[], .nil, rfl, rfl⟩
  | cons s ss ih =>
    cases hreturn : o.returnType s with
    | error fault =>
      refine .inl ⟨[], s, ss, fault, _, rfl, by simp, .returnType hreturn, ?_, ?_⟩
      · simp [returnTypes, hreturn]
      · simp [returnTypes, hreturn]
    | ok ty =>
      cases hrender : o.render ty with
      | error fault =>
        refine .inl ⟨[], s, ss, fault, _, rfl, by simp, .render hreturn hrender, ?_, ?_⟩
        · simp [returnTypes, hreturn, hrender]
        · simp [returnTypes, hreturn, hrender]
      | ok text =>
        have hs : o.Renders s text := ⟨ty, hreturn, hrender⟩
        have hvalue : (returnTypes o n i (s :: ss)).value =
            (returnTypes o n (i + 1) ss).value.map (text :: ·) := by
          simp [returnTypes, hreturn, hrender]
        have hasked : (returnTypes o n i (s :: ss)).questions =
            Question.about n i ++ (returnTypes o n (i + 1) ss).questions := by
          simp [returnTypes, hreturn, hrender, Question.about]
        rw [hvalue, hasked]
        rcases ih (i + 1) with ⟨front, t, rest, fault, qs, rfl, hfront, hfails, hvalue, hasked⟩ |
          ⟨texts, htexts, hvalue, hasked⟩
        · refine .inl ⟨s :: front, t, rest, fault, qs, rfl, ?_, ?_, ?_, ?_⟩
          · exact List.forall_mem_cons.2 ⟨⟨text, hs⟩, hfront⟩
          · rw [List.length_cons, Nat.add_comm front.length, ← Nat.add_assoc]
            exact hfails
          · rw [hvalue]
            rfl
          · rw [hasked, List.length_cons, List.range'_succ, List.flatMap_cons, List.append_assoc]
        · refine .inr ⟨text :: texts, .cons hs htexts, ?_, ?_⟩
          · rw [hvalue]
            rfl
          · rw [hasked, List.length_cons, List.range'_succ, List.flatMap_cons]

theorem Signature.value_declaredName (o : Oracle τ σ ι) (f : File) (n : NodeId) :
    (declaredName o f n).value = ((f.arena.name? n).bind o.symbolAt).map o.symbolName := by
  unfold declaredName
  cases f.arena.name? n with
  | none => rfl
  | some nameNode =>
    cases hsymbol : o.symbolAt nameNode <;> simp [hsymbol]

theorem Signature.ofNode_of_typeAt {o : Oracle τ σ ι} {ty : τ} (htype : o.typeAt n = .ok ty) :
    (ofNode o f n).value = (returnTypes o n 0 (o.signatures ty)).value.map
      (·.map fun returnType =>
        { name := ((f.arena.name? n).bind o.symbolAt).map o.symbolName, returnType }) ∧
    (ofNode o f n).questions = .typeAt n :: (declaredName o f n).questions ++
      .signatures n :: (returnTypes o n 0 (o.signatures ty)).questions := by
  rw [← value_declaredName]
  constructor
  · simp [ofNode, htype]
  · simp [ofNode, htype]

/-! ## The hints of signatures -/

theorem Plan.value_logged (f : File) (n : NodeId) (type : String) :
    (logged f n type).value = ofNode f n type ∧ (logged f n type).questions = [] := by
  unfold logged
  cases ofNode f n type <;> exact ⟨rfl, rfl⟩

/-- Whether there is an insertion, and where, is the same for all types. -/
theorem Plan.insertion?_for_all (f : File) (n : NodeId) :
    (∀ type, (ofNode f n type).insertion? = none) ∨
      ∃ position, ∀ type, (ofNode f n type).insertion? =
        some { position, text := ": " ++ type } := by
  unfold ofNode
  cases Scan.through .seekingParen (childNodes f.arena n) with
  | seekingParen => exact .inl fun _ => rfl
  | seekingColon stop => exact .inr ⟨f.positionOf stop, fun _ => rfl⟩
  | annotated => exact .inl fun _ => rfl

/-- The hint of one signature. -/
def Hint.ofSignature (f : File) (n : NodeId) (s : Signature) : Hint :=
  { name := s.name
    returnType := s.returnType
    insertion := (Plan.ofNode f n s.returnType).insertion? }

/-- There is one hint for each signature, and the oracle is asked nothing for them. -/
theorem Hint.ofSignatures_eq (f : File) (n : NodeId) (ss : List Signature) :
    (ofSignatures f n ss).value = ss.map (ofSignature f n) ∧
      (ofSignatures f n ss).questions = [] := by
  induction ss with
  | nil => exact ⟨rfl, rfl⟩
  | cons s ss ih =>
    obtain ⟨hplan, hasked⟩ := Plan.value_logged f n s.returnType
    constructor
    · simp [ofSignatures, hplan, ih.1, ofSignature]
    · simp [ofSignatures, hasked, ih.2]

theorem Hint.questions_ofNode (o : Oracle τ σ ι) (f : File) (n : NodeId) :
    (ofNode o f n).questions = (Signature.ofNode o f n).questions := by
  rw [ofNode, Traced.questions_bind]
  cases (Signature.ofNode o f n).value with
  | error fault => simp
  | ok signatures => simp [(ofSignatures_eq f n signatures).2]

/-! ## All or nothing -/

theorem Failure.of_eq (f : File) (n : NodeId) (fault : TypeFault) :
    Failure.of f n fault =
      { function := n
        kind := (f.arena.kind? n).getD .unknown
        position := f.positionOf (((f.arena.node? n).map (·.start)).getD 0)
        fault } := by
  unfold Failure.of Arena.kind?
  cases f.arena.node? n <;> rfl

/-- A function gets the hints of all its signatures, or none.  If the oracle has no type for it,
that is its failure.  Otherwise the signatures are gone through in order, the return type before its
text, and the first fault is the failure, after which nothing is asked any more.  If there is none,
there is one hint for each signature, with the text of its return type: all have the name of the
function, and either none has an insertion or all have one at the same place. -/
theorem Hint.ofNode_all_or_nothing (o : Oracle τ σ ι) (f : File) (n : NodeId) :
    let failure : TypeFault → Failure := fun fault =>
      { function := n
        kind := (f.arena.kind? n).getD .unknown
        position := f.positionOf (((f.arena.node? n).map (·.start)).getD 0)
        fault }
    let name := ((f.arena.name? n).bind o.symbolAt).map o.symbolName
    let before := .typeAt n :: (Signature.declaredName o f n).questions ++ [.signatures n]
    (∃ fault, o.typeAt n = .error fault ∧ (ofNode o f n).value = .error (failure fault) ∧
      (ofNode o f n).questions = [.typeAt n]) ∨
    (∃ ty front s rest fault qs, o.typeAt n = .ok ty ∧ o.signatures ty = front ++ s :: rest ∧
      (∀ t ∈ front, ∃ text, o.Renders t text) ∧ o.Fails n front.length s fault qs ∧
      (ofNode o f n).value = .error (failure fault) ∧
      (ofNode o f n).questions =
        before ++ (List.range front.length).flatMap (Question.about n) ++ qs) ∨
    (∃ ty hints, o.typeAt n = .ok ty ∧ (ofNode o f n).value = .ok hints ∧
      List.Forall₂ o.Renders (o.signatures ty) (hints.map Hint.returnType) ∧
      (∀ h ∈ hints, h.name = name) ∧
      ((∀ h ∈ hints, h.insertion = none) ∨ ∃ position, ∀ h ∈ hints,
        h.insertion = some { position, text := ": " ++ h.returnType }) ∧
      (ofNode o f n).questions =
        before ++ (List.range (o.signatures ty).length).flatMap (Question.about n)) := by
  intro failure name before
  have hvalue := value_ofNode o f n
  simp only [Failure.of_eq] at hvalue
  rw [questions_ofNode]
  cases htype : o.typeAt n with
  | error fault =>
    have hsignatures : Signature.ofNode o f n = ⟨.error fault, [.asked (.typeAt n)]⟩ := by
      rw [Signature.ofNode, htype]
      rfl
    rw [hsignatures] at hvalue ⊢
    exact .inl ⟨fault, rfl, hvalue, rfl⟩
  | ok ty =>
    obtain ⟨hsignatures, hasked⟩ := Signature.ofNode_of_typeAt (f := f) htype
    rw [hsignatures] at hvalue
    rw [hasked]
    rcases Signature.returnTypes_cases o n 0 (o.signatures ty) with
      ⟨front, s, rest, fault, qs, hsplit, hfront, hfails, htexts, hqs⟩ | ⟨texts, hall, htexts, hqs⟩
    · rw [htexts] at hvalue
      rw [Nat.zero_add] at hfails
      refine .inr (.inl ⟨ty, front, s, rest, fault, qs, rfl, hsplit, hfront, hfails, hvalue, ?_⟩)
      simp [before, hqs, List.range_eq_range']
    · rw [htexts] at hvalue
      simp only [Except.map, ofSignatures_eq, List.map_map] at hvalue
      refine .inr (.inr ⟨ty, _, rfl, hvalue, ?_, ?_, ?_, ?_⟩)
      · rw [List.map_map]
        exact (List.map_id texts).symm ▸ hall
      · simp [ofSignature, name]
      · rcases Plan.insertion?_for_all f n with hplan | ⟨position, hplan⟩
        · exact .inl (by simp [ofSignature, hplan])
        · exact .inr ⟨position, by simp [ofSignature, hplan]⟩
      · simp [before, hqs, List.range_eq_range']

end ReturnHints
