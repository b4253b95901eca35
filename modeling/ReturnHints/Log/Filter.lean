import ReturnHints.Log.Event

/-!
# Filters of log events

A filter is a list of directives, written with commas between them: a level for all events, or
`target=level` for the events of some targets.  Of the directives that cover an event the one
with the longest target decides, and among equal targets the last.
-/

namespace ReturnHints.Log

/-- Lets events up to a level through if their target starts with `target`. -/
structure Directive where
  target : List Char
  bound : Bound
deriving DecidableEq

abbrev Filter := List Directive

/-- The bound of a name, in upper or lower case. -/
def Bound.ofName? (name : List Char) : Option Bound :=
  Bound.all.find? fun b => b.name.toList == name.map Char.toLower

/-- The parts of a text between separators. -/
def pieces (separator : Char) : List Char → List (List Char)
  | [] => [[]]
  | c :: cs =>
    if c = separator then [] :: pieces separator cs
    else
      match pieces separator cs with
      | [] => [[c]]
      | p :: ps => (c :: p) :: ps

namespace Directive

/-- A directive from its text. -/
def ofText? (cs : List Char) : Option Directive :=
  match pieces '=' cs with
  | [level] => (Bound.ofName? level).map (⟨[], ·⟩)
  | [target, level] => (Bound.ofName? level).map (⟨target, ·⟩)
  | _ => none

/-- Whether the directive is about events of this target. -/
def covers (d : Directive) (target : String) : Bool := d.target.isPrefixOf target.toList

end Directive

namespace Filter

/-- The directives of a text; a part that is no directive is left out. -/
def ofText (s : String) : Filter := (pieces ',' s.toList).filterMap Directive.ofText?

/-- The directive that decides on events of a target. -/
def directiveFor? (f : Filter) (target : String) : Option Directive :=
  (f.filter (·.covers target)).foldl
    (fun best d =>
      match best with
      | none => some d
      | some b => if b.target.length ≤ d.target.length then some d else best)
    none

/-- Whether an event is let through; one that no directive covers is not. -/
def admits (f : Filter) (e : Event) : Bool :=
  (f.directiveFor? e.target).any (·.bound.admits e.level)

/-- The most verbose level that some directive lets through. -/
def bound (f : Filter) : Bound := f.foldl (fun b d => b.sup d.bound) none

end Filter

end ReturnHints.Log
