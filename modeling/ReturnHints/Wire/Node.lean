import ReturnHints.Json.Record
import ReturnHints.Json.Write
import ReturnHints.Tree.Arena

/-!
# Kinds and node numbers on the wire

A kind is written as its name, and also read from an object with the name as its only key and
null as its value.
-/

namespace ReturnHints

open Json

/-! ## Kinds -/

/-- Reads the name of a kind, behind the opening quote. -/
def Kind.readName : Reader Kind := fun cs => do
  let (name, rest) ← string cs
  let name := String.ofList name
  match Kind.ofName? name with
  | some kind => return (kind, rest)
  | none => .error (.mismatch (.unknownVariant name (Kind.all.map Kind.name)))

/-- Reads the only member of an object, behind the opening quote of its key, and the closing
brace. -/
def Kind.readMember : Reader Kind := fun cs => do
  let (kind, rest) ← Kind.readName cs
  let rest ← readNull (← colon rest)
  match skipSpaces rest with
  | [] => .error .truncated
  | '}' :: rest => return (kind, rest)
  | _ => .error .malformed

def Kind.read : Reader Kind := fun cs =>
  match skipSpaces cs with
  | [] => .error .truncated
  | '"' :: rest => Kind.readName rest
  | '{' :: rest =>
    match skipSpaces rest with
    | [] => .error .truncated
    | '"' :: rest => Kind.readMember rest
    | _ => .error .malformed
  | _ => .error .malformed

def Kind.write (k : Kind) : List Char := writeText k.name

/-! ## Node numbers -/

def NodeId.read : Reader NodeId := readWord32

def NodeId.write (n : NodeId) : List Char := writeNatural n

end ReturnHints
