import ReturnHints.Tree.File

/-!
# Building a tree along a text

A session walks over a text with a cursor and keeps a stack of open nodes.  A node or token is
attached to the innermost open node; without one it becomes the root, and only one can.  Tokens
are placed by their span, or by their lexeme, which is searched from the cursor on.  A node gets
its span from its first and last child when it is closed.

A call that fails leaves the session as it was, except that a second root, though refused, has
taken a number in the arena.
-/

namespace ReturnHints

/-! ## Errors -/

/-- What an open node was needed for. -/
inductive Need
  | finish | name
deriving DecidableEq

inductive BuildError
  | lexemeNotFound (text : String) (offset : Nat)
  | spanOutOfBounds (start stop length : Nat)
  | noOpenNode (need : Need)
  | unclosedNodes (count : Nat)
  | emptyTree
  | multipleRoots
deriving DecidableEq

def Need.verb : Need → String
  | .finish => "finish"
  | .name => "name"

def BuildError.message : BuildError → String
  | .lexemeNotFound text offset =>
    "lexeme `" ++ text ++ "` not found at or after offset " ++ toString offset
  | .spanOutOfBounds start stop length =>
    "span " ++ toString start ++ ".." ++ toString stop ++ " does not fit the source text ("
      ++ toString length ++ " bytes)"
  | .noOpenNode need => "no open node to " ++ need.verb
  | .unclosedNodes count => toString count ++ " node(s) still open"
  | .emptyTree => "tree has no root node"
  | .multipleRoots => "a second top-level node was started after the root"

/-! ## Sessions -/

/-- The state of a session; `openNodes` has the innermost open node first. -/
structure Session where
  fileName : String
  text : String
  arena : Arena := .empty
  openNodes : List NodeId := []
  root : Option NodeId := none
  cursor : Nat := 0
deriving DecidableEq, Inhabited

/-- The calls of a session. -/
inductive Call
  | start (kind : Kind)
  | finish
  | token (kind : Kind) (start stop : Nat)
  | lexeme (kind : Kind) (text : String)
  | name (text : String)
  | setName (name : Option NodeId)
deriving DecidableEq

namespace Session

/-- A session at the start of a text. -/
def begin (fileName text : String) : Session := { fileName, text }

/-- Adds a node and hangs it under the innermost open node, or makes it the root. -/
def place (s : Session) (n : Node) : Except BuildError NodeId × Session :=
  let i := s.arena.size
  let arena := s.arena.add n
  match s.openNodes with
  | p :: _ => (.ok i, { s with arena := (arena.attach? p i).getD arena })
  | [] =>
    match s.root with
    | none => (.ok i, { s with arena, root := some i })
    | some _ => (.error .multipleRoots, { s with arena })

/-- Opens a node at the cursor. -/
def startNode (s : Session) (kind : Kind) : Except BuildError NodeId × Session :=
  match s.place { kind, start := s.cursor, stop := s.cursor } with
  | (.ok i, s) => (.ok i, { s with openNodes := i :: s.openNodes })
  | failed => failed

/-- The span from the start of the first child to the end of the last one. -/
def spanOfChildren? (a : Arena) (i : NodeId) : Option (Nat × Nat) := do
  let first ← (a.children i).head?
  let last ← (a.children i).getLast?
  return ((← a.node? first).start, (← a.node? last).stop)

/-- Closes the innermost open node; one without children keeps its empty span. -/
def finishNode (s : Session) : Except BuildError NodeId × Session :=
  match s.openNodes with
  | [] => (.error (.noOpenNode .finish), s)
  | i :: rest =>
    let arena :=
      match spanOfChildren? s.arena i with
      | none => s.arena
      | some (start, stop) => s.arena.modify i fun n => { n with start, stop }
    (.ok i, { s with arena, openNodes := rest })

/-- Places a token over the bytes `start` to `stop` and moves the cursor behind it. -/
def token (s : Session) (kind : Kind) (start stop : Nat) : Except BuildError NodeId × Session :=
  let length := Text.byteLength s.text.toList
  if start ≤ stop ∧ stop ≤ length then
    match s.place { kind, start, stop } with
    | (.ok i, s) => (.ok i, { s with cursor := stop })
    | failed => failed
  else (.error (.spanOutOfBounds start stop length), s)

/-- Places a token at the first occurrence of its lexeme at or after the cursor. -/
def lexeme (s : Session) (kind : Kind) (text : String) : Except BuildError NodeId × Session :=
  match (Text.dropBytes? s.text.toList s.cursor).bind (Text.find? text.toList) with
  | none => (.error (.lexemeNotFound text s.cursor), s)
  | some gap =>
    let start := s.cursor + gap
    s.token kind start (start + Text.byteLength text.toList)

/-- Says which node names the innermost open one. -/
def setName (s : Session) (name : Option NodeId) : Except BuildError Unit × Session :=
  match s.openNodes with
  | [] => (.error (.noOpenNode .name), s)
  | i :: _ => (.ok (), { s with arena := s.arena.modify i fun n => { n with name } })

/-- Places an identifier that names the innermost open node. -/
def nameToken (s : Session) (text : String) : Except BuildError NodeId × Session :=
  match s.openNodes with
  | [] => (.error (.noOpenNode .name), s)
  | _ :: _ =>
    match s.lexeme .identifier text with
    | (.ok i, s) => (s.setName (some i)).map (·.map fun _ => i) id
    | failed => failed

/-- Carries out one call.  The answer is the number of the node placed, opened or closed. -/
def call (s : Session) : Call → Except BuildError (Option NodeId) × Session
  | .start kind => (s.startNode kind).map (·.map some) id
  | .finish => s.finishNode.map (·.map some) id
  | .token kind start stop => (s.token kind start stop).map (·.map some) id
  | .lexeme kind text => (s.lexeme kind text).map (·.map some) id
  | .name text => (s.nameToken text).map (·.map some) id
  | .setName name => (s.setName name).map (·.map fun _ => none) id

deriving instance DecidableEq for Except

/-- What a call has answered, and where the cursor stands after it. -/
structure Answer where
  result : Except BuildError (Option NodeId)
  cursor : Nat
deriving DecidableEq

/-- Carries out calls in order; one that fails does not stop the others. -/
def run (s : Session) : List Call → List Answer × Session
  | [] => ([], s)
  | c :: cs =>
    let (result, s) := s.call c
    let (answers, last) := s.run cs
    ({ result, cursor := s.cursor } :: answers, last)

/-- The file, once every node is closed and there is a root. -/
def file (s : Session) : Except BuildError File :=
  if s.openNodes ≠ [] then .error (.unclosedNodes s.openNodes.length)
  else
    match s.root with
    | none => .error .emptyTree
    | some root => .ok { name := s.fileName, text := s.text, arena := s.arena, root }

end Session

end ReturnHints
