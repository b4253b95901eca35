/-!
# Levels of log events

A level is the more verbose the later it stands below.  A bound on verbosity is a level, or
`none` to keep everything out.
-/

namespace ReturnHints.Log

inductive Level
  | error | warn | info | debug | trace
deriving DecidableEq, Inhabited

/-- The most verbose level that is let through, if any is. -/
abbrev Bound := Option Level

namespace Level

def verbosity : Level → Nat
  | error => 1
  | warn => 2
  | info => 3
  | debug => 4
  | trace => 5

/-- The name in log lines. -/
def shown : Level → String
  | error => "ERROR"
  | warn => "WARN"
  | info => "INFO"
  | debug => "DEBUG"
  | trace => "TRACE"

/-- The name in settings. -/
def name : Level → String
  | error => "error"
  | warn => "warn"
  | info => "info"
  | debug => "debug"
  | trace => "trace"

def all : List Level := [error, warn, info, debug, trace]

end Level

namespace Bound

def verbosity (b : Bound) : Nat := b.elim 0 Level.verbosity

/-- Whether an event of this level is let through. -/
def admits (b : Bound) (l : Level) : Bool := l.verbosity ≤ b.verbosity

/-- The more verbose of two bounds. -/
def sup (a b : Bound) : Bound := if a.verbosity < b.verbosity then b else a

def name (b : Bound) : String := b.elim "off" Level.name

/-- Every bound, `off` first. -/
def all : List Bound := none :: Level.all.map some

end Bound

end ReturnHints.Log
