/-!
# Places in a text
-/

namespace ReturnHints

/-- A place in a text: zero-based line, and column in UTF-16 units. -/
structure Position where
  line : Nat
  character : Nat
deriving DecidableEq, Inhabited

/-- One-based, as compilers print places. -/
def Position.shown (p : Position) : String :=
  toString (p.line + 1) ++ ":" ++ toString (p.character + 1)

end ReturnHints
