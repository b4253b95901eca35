import ReturnHints.Log.Filter
import ReturnHints.Report
import ReturnHints.Text.Blank
import ReturnHints.Tree.Session

/-!
# Setting up the log

Without directives there is no log.  Directives for this program alone come before those for
all programs.  A log that the host has set up already stays as it is.

What a set-up does is seen from the log of one run (`Sample`).
-/

namespace ReturnHints.Log

/-- The form of log lines. -/
inductive Format
  | text | tree | json
deriving DecidableEq

namespace Format

/-- The form that a setting asks for; plain text unless it is one of two words. -/
def ofSetting (s : String) : Format :=
  if Text.settingWord s = "tree" then tree
  else if Text.settingWord s = "json" then json
  else text

def name : Format → String
  | text => "Text"
  | tree => "Tree"
  | json => "Json"

/-- The word in settings. -/
def word : Format → String
  | text => "text"
  | tree => "tree"
  | json => "json"

end Format

/-- The settings found in the environment: directives for this program, directives for all
programs, and the form of log lines. -/
structure Settings where
  own : Option String := none
  shared : Option String := none
  format : Option String := none
deriving DecidableEq

structure Setup where
  filter : Filter
  format : Format
deriving DecidableEq

namespace Setup

/-- The filter that the settings ask for.  Empty directives for all programs mean errors only,
empty ones for this program nothing. -/
def filter? (s : Settings) : Option Filter :=
  match s.own, s.shared with
  | some own, _ => some (.ofText own)
  | none, some shared =>
    let f := Filter.ofText shared
    some (if f.isEmpty then [⟨[], some .error⟩] else f)
  | none, none => none

def ofSettings? (s : Settings) : Option Setup :=
  (filter? s).map fun filter => { filter, format := .ofSetting (s.format.getD "") }

/-- The events that are written: messages that the filter lets through. -/
def written (s : Setup) (events : List Event) : List Event :=
  events.filter fun e =>
    match e.headline with
    | .message _ => s.filter.admits e
    | .span _ => false

end Setup

/-- The log of a run: whether there is one at all, the most verbose level it takes, and what is
written, if anything. -/
structure Outcome where
  installed : Bool
  bound : Bound
  output : Option (Format × List Event)
deriving DecidableEq

/-- The log of a run with these events.  A log of the host takes every event and writes
nothing. -/
def Outcome.ofRun (hosted : Bool) (s : Settings) (events : List Event) : Outcome :=
  if hosted then ⟨true, some .trace, none⟩
  else
    match Setup.ofSettings? s with
    | none => ⟨false, none, none⟩
    | some setup =>
      let written := setup.written events
      ⟨true, setup.filter.bound, if written.isEmpty then none else some (setup.format, written)⟩

/-! ## A run to be logged -/

/-! A file with four functions, one for each thing that can become of a function: a return type is
inserted, it has no place, it stands there already, and it is not known. -/

namespace Sample

def text : String :=
  "function a() \x7b\x7d\nconst b = x => x;\nfunction c(): void \x7b\x7d\nfunction d() \x7b\x7d\n"

/-- The calls that build the file; the functions are the nodes 1, 6, 9 and 15. -/
def calls : List Call :=
  [.start .sourceFile,
   .start .functionDeclaration, .name "a", .lexeme .openParenToken "(",
   .lexeme .closeParenToken ")", .lexeme .block "\x7b\x7d", .finish,
   .start .arrowFunction, .lexeme .parameter "x", .lexeme .equalsGreaterThanToken "=>", .finish,
   .start .functionDeclaration, .name "c", .lexeme .openParenToken "(",
   .lexeme .closeParenToken ")", .lexeme .colonToken ":", .lexeme .voidKeyword "void", .finish,
   .start .functionDeclaration, .name "d", .lexeme .openParenToken "(",
   .lexeme .closeParenToken ")", .finish,
   .finish]

def file : File :=
  match ((Session.begin "sample.ts" text).run calls).2.file with
  | .ok f => f
  | .error _ => default

def oracle : Oracle OracleTable.Ty OracleTable.Signature String :=
  OracleTable.oracle {
    types := [(1, .ok [.returns (.ok "void")]), (6, .ok [.returns (.ok "number")]),
      (9, .ok [.returns (.ok "void")])]
    names := [(2, "a"), (10, "c")] }

/-- The report of the file, with its journal. -/
def report : Traced (Except Failure Report) := Report.ofFile oracle {} file

end Sample

end ReturnHints.Log
