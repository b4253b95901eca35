import ReturnHints.Log.Traced
import ReturnHints.Tree.File

/-!
# Where a return type goes

Only the direct children of a function are looked at.  Its parameter list ends with its last
closing parenthesis, and a colon after a closing parenthesis begins its own return type; colons
of parameters and of inner functions lie deeper.  So a return type is inserted right after the
last closing parenthesis, unless there is none, or a colon follows one.
-/

namespace ReturnHints

open Log (Traced)

/-- A text to be inserted at a place. -/
structure Insertion where
  position : Position
  text : String
deriving DecidableEq

inductive Plan
  | insert (insertion : Insertion)
  | alreadyAnnotated
  | missingCloseParen
deriving DecidableEq

namespace Plan

def insertion? : Plan → Option Insertion
  | insert i => some i
  | alreadyAnnotated | missingCloseParen => none

def isInsert : Plan → Bool
  | insert _ => true
  | alreadyAnnotated | missingCloseParen => false

/-! ## Scanning the children -/

/-- What the children seen so far have shown; `stop` is the end of the last closing
parenthesis. -/
inductive Scan
  | seekingParen
  | seekingColon (stop : Nat)
  | annotated
deriving DecidableEq

/-- Goes on with a scan over further children, up to the first colon that counts. -/
def Scan.through : Scan → List Node → Scan
  | annotated, _ => annotated
  | s, [] => s
  | seekingParen, c :: cs =>
    if c.kind = .closeParenToken then through (seekingColon c.stop) cs else through seekingParen cs
  | seekingColon stop, c :: cs =>
    if c.kind = .closeParenToken then through (seekingColon c.stop) cs
    else if c.kind = .colonToken then annotated
    else through (seekingColon stop) cs

/-- The children of a node as nodes. -/
def childNodes (a : Arena) (n : NodeId) : List Node := (a.children n).filterMap a.node?

/-- The plan for a function whose return type has the text `type`. -/
def ofNode (f : File) (n : NodeId) (type : String) : Plan :=
  match Scan.through .seekingParen (childNodes f.arena n) with
  | .seekingParen => missingCloseParen
  | .seekingColon stop => insert { position := f.positionOf stop, text := ": " ++ type }
  | .annotated => alreadyAnnotated

/-- The plan for a function; a plan without insertion is logged. -/
def logged (f : File) (n : NodeId) (type : String) : Traced Plan := do
  let plan := ofNode f n type
  match plan with
  | insert _ => return plan
  | alreadyAnnotated =>
    Traced.log (.alreadyAnnotated n)
    return plan
  | missingCloseParen =>
    Traced.log (.missingCloseParen n (f.arena.kind? n))
    return plan

end Plan

end ReturnHints
