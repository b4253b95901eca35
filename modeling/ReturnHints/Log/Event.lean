import ReturnHints.Log.Level
import ReturnHints.Oracle
import ReturnHints.Position

/-!
# Log events

What is worth a log line while a file is annotated, each with its level, its target (the part
of the program that speaks) and its fields.
-/

namespace ReturnHints.Log

inductive Event
  /-- the annotation of a file has begun -/
  | begun (file : String)
  /-- a walk has reached a function -/
  | found (node : NodeId) (kind : Kind) (start : Nat)
  | alreadyAnnotated (node : NodeId)
  | missingCloseParen (node : NodeId) (kind : Option Kind)
  /-- a function is left out of the report -/
  | skipped (kind : Kind) (position : Position) (fault : TypeFault)
  | finished (functions insertions failures : Nat)
deriving DecidableEq

/-- What a log line is about: a message, or a span of time that has been entered. -/
inductive Headline
  | message (text : String)
  | span (name : String)
deriving DecidableEq

namespace Event

def level : Event → Level
  | found .. => .trace
  | skipped .. => .warn
  | begun .. | alreadyAnnotated .. | missingCloseParen .. | finished .. => .debug

def target : Event → String
  | found .. => "retype_annotate::walker"
  | alreadyAnnotated .. | missingCloseParen .. => "retype_annotate::planner"
  | begun .. | skipped .. | finished .. => "retype_annotate::annotator"

def headline : Event → Headline
  | begun .. => .span "annotate"
  | found .. => .message "found function-like node"
  | alreadyAnnotated .. => .message "return type already annotated"
  | missingCloseParen .. =>
    .message "no closing parenthesis among direct children, skipping insertion"
  | skipped .. => .message "skipping function"
  | finished .. => .message "annotation finished"

/-- The fields in order, each with its text. -/
def fields : Event → List (String × String)
  | begun file => [("file", file)]
  | found node kind start =>
    [("index", node.shown), ("kind", kind.name), ("pos", toString start)]
  | alreadyAnnotated node => [("node", node.shown)]
  | missingCloseParen node kind =>
    [("node", node.shown), ("kind", kind.elim "None" fun k => "Some(" ++ k.name ++ ")")]
  | skipped kind position fault =>
    [("kind", kind.name), ("position", position.shown), ("error", fault.message)]
  | finished functions insertions failures =>
    [("functions", toString functions), ("insertions", toString insertions),
     ("skipped", toString failures)]

end Event

end ReturnHints.Log
