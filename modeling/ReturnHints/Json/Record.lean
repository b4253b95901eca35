import ReturnHints.Json.Value

/-!
# Records in JSON

A record is written as an object, with its fields in any order, or as a list of its fields in
their own order.  `Record` says what the fields are, and reading works on a state `π` that holds
the fields found so far.
-/

namespace ReturnHints.Json

/-! ## Values of fields -/

/-- The number of 32-bit words. -/
def wordLimit : Nat := 4294967296

/-- A number that was read, if it is a natural number below 2³². -/
def asWord32 : Found × List Char → Except Fault (Nat × List Char)
  | (.natural n, rest) =>
    if n < wordLimit then .ok (n, rest)
    else .error (.mismatch (.outOfRange (.natural n) .word32))
  | (.negative n, _) => .error (.mismatch (.outOfRange (.negative n) .word32))
  | (found, _) => .error (.mismatch (.wrongType found .word32))

/-- Reads a natural number below 2³². -/
def readWord32 : Reader Nat := fun cs =>
  match skipSpaces cs with
  | [] => .error .truncated
  | '-' :: rest => number true rest >>= asWord32
  | c :: rest =>
    if isDigit c then number false (c :: rest) >>= asWord32
    else .error (refusal .word32 (c :: rest))

/-- Reads a string. -/
def readText : Reader String := fun cs =>
  match skipSpaces cs with
  | '"' :: rest => (string rest).map fun (s, rest) => (String.ofList s, rest)
  | cs => .error (refusal .text cs)

/-- Reads `null`. -/
def readNull : Skipper := fun cs =>
  match skipSpaces cs with
  | 'n' :: rest => letters ['u', 'l', 'l'] rest
  | cs => .error (refusal .unit cs)

/-- Reads `null` as nothing. -/
def readNullable {α : Type} (read : Reader α) : Reader (Option α) := fun cs =>
  match skipSpaces cs with
  | 'n' :: rest => (letters ['u', 'l', 'l'] rest).map fun rest => (none, rest)
  | cs => (read cs).map fun (a, rest) => (some a, rest)

/-! ## Records -/

/-- A field: its key, whether the state already has it, how its value is read into the state,
and whether a list may end before it. -/
structure Field (π : Type) where
  key : String
  isSet : π → Bool
  read : π → Reader π
  optional : Bool

/-- A field whose value is kept in the state as an option. -/
def Field.of {π α : Type} (key : String) (get : π → Option α) (set : π → α → π)
    (read : Reader α) (optional : Bool) : Field π where
  key := key
  isSet p := (get p).isSome
  read p cs := (read cs).map fun (a, rest) => (set p a, rest)
  optional := optional

/-- The fields of a record in order, the state without any, and the record made from a state,
or the first field that is missing.  Keys that are no field are skipped, or refused if the record
is `strict`. -/
structure Record (π α : Type) where
  name : String
  fields : List (Field π)
  strict : Bool
  start : π
  finish : π → Except Mismatch α

namespace Record

variable {π α : Type}

/-- Reads a member of an object, from behind the opening quote of its key. -/
def member (r : Record π α) (p : π) : Reader π := fun cs => do
  let (key, rest) ← string cs
  let key := String.ofList key
  match r.fields.find? (·.key == key) with
  | some field =>
    if field.isSet p then .error (.mismatch (.duplicateField key))
    else field.read p (← colon rest)
  | none =>
    if r.strict then .error (.mismatch (.unknownField key (r.fields.map (·.key))))
    else return (p, ← skip (← colon rest))

/-- Reads the items of a list as the fields `fs`, of which the first is number `i`. -/
def slots (r : Record π α) : Nat → π → List (Field π) → Reader π
  | _, p, [], cs =>
    match skipSpaces cs with
    | [] => .error .truncated
    | ']' :: rest => .ok (p, rest)
    | _ => .error .malformed
  | i, p, f :: fs, cs =>
    match skipSpaces cs with
    | [] => .error .truncated
    | ']' :: rest =>
      if f.optional then r.slots (i + 1) p fs (']' :: rest)
      else .error (.mismatch (.tooShort i r.name r.fields.length))
    | c :: rest =>
      if i = 0 then f.read p (c :: rest) >>= fun (p, rest) => r.slots (i + 1) p fs rest
      else if c = ',' then
        match skipSpaces rest with
        | [] => .error .truncated
        | ']' :: _ => .error .malformed
        | next => f.read p next >>= fun (p, rest) => r.slots (i + 1) p fs rest
      else .error .malformed

/-- Reads a record from an object or a list. -/
def read (r : Record π α) : Reader α := fun cs => do
  match skipSpaces cs with
  | '[' :: rest => done (← r.slots 0 r.start r.fields rest)
  | '{' :: rest => done (← members r.member r.start rest)
  | cs => .error (refusal (.record r.name) cs)
where
  done : π × List Char → Except Fault (α × List Char)
    | (p, rest) =>
      match r.finish p with
      | .ok a => .ok (a, rest)
      | .error cause => .error (.mismatch cause)

end Record

end ReturnHints.Json
