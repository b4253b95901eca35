import ReturnHints.Json.Scalar

/-!
# JSON values

The brackets of JSON are read by two functions that are told how to read what stands between
them: `items` for lists and `members` for objects.  On top of them, `value` reads any value and
says what it is, with a limit on the brackets that may be open, and `skip` passes over any value
without looking at it closely.

The number that the inner functions count down bounds the steps they can still take.  Each step
takes a character, so the number of characters left is enough.
-/

namespace ReturnHints.Json

/-! ## Lists and objects -/

/-- Reads the further items of a list, each behind a comma. -/
def moreItems (item : Skipper) : Nat → Skipper
  | 0, _ => .error .truncated
  | n + 1, cs =>
    match skipSpaces cs with
    | [] => .error .truncated
    | ']' :: rest => .ok rest
    | ',' :: rest => item rest >>= moreItems item n
    | _ => .error .malformed

/-- Reads the items of a list, behind the opening bracket. -/
def items (item : Skipper) : Skipper := fun cs =>
  match skipSpaces cs with
  | [] => .error .truncated
  | ']' :: rest => .ok rest
  | next => item next >>= fun rest => moreItems item (rest.length + 1) rest

variable {σ : Type}

/-- Reads the further members of an object, each behind a comma. -/
def moreMembers (member : σ → Reader σ) : Nat → σ → Reader σ
  | 0, _, _ => .error .truncated
  | n + 1, s, cs =>
    match skipSpaces cs with
    | [] => .error .truncated
    | '}' :: rest => .ok (s, rest)
    | ',' :: rest =>
      match skipSpaces rest with
      | [] => .error .truncated
      | '"' :: rest => member s rest >>= fun (s, rest) => moreMembers member n s rest
      | _ => .error .malformed
    | _ => .error .malformed

/-- Reads the members of an object, behind the opening brace.  A member is read from behind the
opening quote of its key, and may change a state. -/
def members (member : σ → Reader σ) (s : σ) : Reader σ := fun cs =>
  match skipSpaces cs with
  | [] => .error .truncated
  | '}' :: rest => .ok (s, rest)
  | '"' :: rest => member s rest >>= fun (s, rest) => moreMembers member (rest.length + 1) s rest
  | _ => .error .malformed

/-! ## Any value -/

/-- Reads the value that starts with `c` if it has no brackets. -/
def scalar? (c : Char) (rest : List Char) : Option (Except Fault (Found × List Char)) :=
  match c with
  | 'n' => some ((letters ['u', 'l', 'l'] rest).map fun rest => (.null, rest))
  | 't' => some ((letters ['r', 'u', 'e'] rest).map fun rest => (.bool true, rest))
  | 'f' => some ((letters ['a', 'l', 's', 'e'] rest).map fun rest => (.bool false, rest))
  | '"' => some ((string rest).map fun (s, rest) => (.text (String.ofList s), rest))
  | '-' => some (number true rest)
  | _ => if isDigit c then some (number false (c :: rest)) else none

/-- The fault of a value, behind the blanks before it, that is not what was expected.  A value
without brackets is read first, and its own fault counts before this one. -/
def refusal (expected : Expected) : List Char → Fault
  | [] => .truncated
  | '[' :: _ => .mismatch (.wrongType .list expected)
  | '{' :: _ => .mismatch (.wrongType .object expected)
  | c :: rest =>
    match scalar? c rest with
    | none => .malformed
    | some (.error fault) => fault
    | some (.ok (found, _)) => .mismatch (.wrongType found expected)

/-- The number of brackets and braces that may be open at a time. -/
def maxOpen : Nat := 127

/-- Reads a value and says what it is; `room` more brackets may be opened. -/
def value : Nat → Reader Found
  | room, cs =>
    match skipSpaces cs with
    | [] => .error .truncated
    | '[' :: rest =>
      match room with
      | 0 => .error .malformed
      | room + 1 =>
        (items (fun cs => (value room cs).map (·.2)) rest).map fun rest => (.list, rest)
    | '{' :: rest =>
      match room with
      | 0 => .error .malformed
      | room + 1 =>
        (members (fun (_ : Unit) cs => do
          let (_, rest) ← string cs
          let (_, rest) ← value room (← colon rest)
          return ((), rest)) () rest).map fun (_, rest) => (.object, rest)
    | c :: rest => (scalar? c rest).getD (.error .malformed)

/-! ## Skipping values -/

/-- Skips a value without brackets that starts with `c`. -/
def skipScalar (c : Char) : Skipper := fun rest =>
  match c with
  | 'n' => letters ['u', 'l', 'l'] rest
  | 't' => letters ['r', 'u', 'e'] rest
  | 'f' => letters ['a', 'l', 's', 'e'] rest
  | '"' => skipString rest
  | '-' => skipNumber rest
  | _ => if isDigit c then skipNumber (c :: rest) else .error .malformed

/-- Skips a value with at most `n` characters. -/
def skipWithin : Nat → Skipper
  | 0, _ => .error .truncated
  | n + 1, cs =>
    match skipSpaces cs with
    | [] => .error .truncated
    | '[' :: rest => items (skipWithin n) rest
    | '{' :: rest =>
      (members (fun (_ : Unit) cs => do
        let rest ← skipWithin n (← colon (← skipString cs))
        return ((), rest)) () rest).map (·.2)
    | c :: rest => skipScalar c rest

/-- Skips any value, however deep. -/
def skip : Skipper := fun cs => skipWithin (cs.length + 1) cs

/-! ## Whole texts -/

/-- Reads a whole text: only blanks may follow the value. -/
def readAll {α : Type} (read : Reader α) (text : String) : Except Fault α := do
  let (a, rest) ← read text.toList
  if (skipSpaces rest).isEmpty then return a else .error .malformed

end ReturnHints.Json
