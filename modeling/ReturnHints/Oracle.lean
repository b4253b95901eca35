import ReturnHints.Tree.Arena

/-!
# Type oracles

The types of a program are known to an outside checker.  It is asked about a node for its type,
about a type for its call signatures and its text, about a signature for its return type, and
about a name for the symbol behind it.  `OracleTable` is an oracle given by two finite lists.
-/

namespace ReturnHints

/-- Why an oracle gave no answer. -/
inductive TypeFault
  | noType (node : NodeId)
  | noReturnType (reason : String)
  | noRendering (reason : String)
deriving DecidableEq

def TypeFault.message : TypeFault → String
  | .noType node => "no type is available for " ++ node.shown
  | .noReturnType reason => "signature return type could not be resolved: " ++ reason
  | .noRendering reason => "type could not be rendered: " ++ reason

/-- The answers of a checker with types `τ`, signatures `σ` and symbols `ι`. -/
structure Oracle (τ σ ι : Type) where
  typeAt : NodeId → Except TypeFault τ
  signatures : τ → List σ
  returnType : σ → Except TypeFault τ
  render : τ → Except TypeFault String
  symbolAt : NodeId → Option ι
  symbolName : ι → String

/-! ## Questions -/

/-- A question as it was asked: `signature` counts the signatures of `node` from 0. -/
inductive Question
  | typeAt (node : NodeId)
  | signatures (node : NodeId)
  | returnType (node : NodeId) (signature : Nat)
  | render (node : NodeId) (signature : Nat)
  | symbolAt (name : NodeId)
  | symbolName (name : NodeId)
deriving DecidableEq

def Question.shown : Question → String
  | .typeAt n => "type_at_location " ++ toString n
  | .signatures n => "call_signatures " ++ toString n
  | .returnType n i => "return_type " ++ toString n ++ " " ++ toString i
  | .render n i => "type_to_string " ++ toString n ++ " " ++ toString i
  | .symbolAt n => "symbol_at_location " ++ toString n
  | .symbolName n => "symbol_name " ++ toString n

/-! ## Oracles given by a table -/

namespace OracleTable

/-- A signature without a return type, or one whose return type has a text or none. -/
inductive Signature
  | noReturn (fault : TypeFault)
  | returns (text : Except TypeFault String)

/-- A function type, or a type of which only the text is of interest. -/
inductive Ty
  | function (signatures : List Signature)
  | plain (text : Except TypeFault String)

end OracleTable

/-- The types of nodes and the symbols of names.  The last entry for a node counts. -/
structure OracleTable where
  types : List (NodeId × Except TypeFault (List OracleTable.Signature)) := []
  names : List (NodeId × String) := []

namespace OracleTable

/-- The last entry for a node. -/
def lookup? {α : Type} (entries : List (NodeId × α)) (n : NodeId) : Option α :=
  (entries.reverse.find? (·.1 == n)).map (·.2)

/-- The oracle that answers from the table; a node without an entry has no type. -/
def oracle (t : OracleTable) : Oracle Ty Signature String where
  typeAt n := (lookup? t.types n).elim (.error (.noType n)) (·.map .function)
  signatures
    | .function ss => ss
    | .plain _ => []
  returnType
    | .noReturn fault => .error fault
    | .returns text => .ok (.plain text)
  render
    | .function _ => .ok ""
    | .plain text => text
  symbolAt n := lookup? t.names n
  symbolName s := s

end OracleTable

end ReturnHints
