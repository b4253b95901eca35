import ReturnHints.Decimal.Layout
import ReturnHints.Text.Quoted

/-!
# Faults of JSON texts

A text is read from left to right for a value of a known shape, and the first fault met ends the
reading: the text ends too early, it is no JSON, or it is JSON of another shape.  A fault of the
last kind has a cause with a message.
-/

namespace ReturnHints.Json

/-- What was found in place of the value that was expected. -/
inductive Found
  | null
  | bool (b : Bool)
  | natural (n : Nat)
  | negative (n : Nat)
  | float (x : Float)
  | text (s : String)
  | list
  | object

/-- What was expected. -/
inductive Expected
  | word32
  | text
  | unit
  | record (name : String)

inductive Mismatch
  | wrongType (found : Found) (expected : Expected)
  | outOfRange (found : Found) (expected : Expected)
  | tooShort (length : Nat) (record : String) (fields : Nat)
  | missingField (key : String)
  | duplicateField (key : String)
  | unknownField (key : String) (known : List String)
  | unknownVariant (name : String) (known : List String)
  | noSwitch
  | badSwitch (text : String)

inductive Fault
  | truncated
  | malformed
  | mismatch (cause : Mismatch)

/-! ## Messages -/

def Found.shown : Found → String
  | .null => "null"
  | .bool b => "boolean `" ++ toString b ++ "`"
  | .natural n => "integer `" ++ toString n ++ "`"
  | .negative n => "integer `-" ++ toString n ++ "`"
  | .float x => "floating point `" ++ Decimal.shown x ++ "`"
  | .text s => "string " ++ Text.quoted s
  | .list => "sequence"
  | .object => "map"

def Expected.shown : Expected → String
  | .word32 => "u32"
  | .text => "a string"
  | .unit => "unit"
  | .record name => "struct " ++ name

/-- The names that would do, in backquotes. -/
def choices (known : List String) : String :=
  "expected one of " ++ ", ".intercalate (known.map fun k => "`" ++ k ++ "`")

def Mismatch.message : Mismatch → String
  | .wrongType found expected =>
    "invalid type: " ++ found.shown ++ ", expected " ++ expected.shown
  | .outOfRange found expected =>
    "invalid value: " ++ found.shown ++ ", expected " ++ expected.shown
  | .tooShort length record fields =>
    "invalid length " ++ toString length ++ ", expected struct " ++ record ++ " with "
      ++ toString fields ++ " elements"
  | .missingField key => "missing field `" ++ key ++ "`"
  | .duplicateField key => "duplicate field `" ++ key ++ "`"
  | .unknownField key known => "unknown field `" ++ key ++ "`, " ++ choices known
  | .unknownVariant name known => "unknown variant `" ++ name ++ "`, " ++ choices known
  | .noSwitch => "data did not match any variant of untagged enum BoolOrString"
  | .badSwitch text =>
    "invalid boolean value: '" ++ text ++ "'. Expected true, false, 'true', or 'false'"

end ReturnHints.Json
