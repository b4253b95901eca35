import ReturnHints.Hint.Basic

/-!
# Options of a report
-/

namespace ReturnHints

/-- `isolateFailures`: a function that fails is skipped and does not end the report;
`includeAnonymous`: hints of functions without a name are kept; `skipAnnotated`: hints without
an insertion are dropped. -/
structure Options where
  isolateFailures : Bool := true
  includeAnonymous : Bool := true
  skipAnnotated : Bool := false
deriving DecidableEq, Inhabited

/-- Whether a report with these options has the hint. -/
def Options.keeps (o : Options) (h : Hint) : Bool :=
  (o.includeAnonymous || h.name.isSome) && (!o.skipAnnotated || h.insertion.isSome)

end ReturnHints
