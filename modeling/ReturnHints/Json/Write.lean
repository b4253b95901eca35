import ReturnHints.Decimal.Layout

/-!
# Writing JSON

Texts are written without blanks.  In strings only the quote, the backslash and the control
characters are escaped.
-/

namespace ReturnHints.Json

/-- A digit to base sixteen, in lower case. -/
def hexDigit (n : Nat) : Char :=
  if n < 10 then Char.ofNat ('0'.toNat + n) else Char.ofNat ('a'.toNat + (n - 10))

/-- A character inside a string. -/
def escape (c : Char) : List Char :=
  if c == '"' || c == '\\' then ['\\', c]
  else if c == '\x08' then ['\\', 'b']
  else if c == '\t' then ['\\', 't']
  else if c == '\n' then ['\\', 'n']
  else if c == '\x0c' then ['\\', 'f']
  else if c == '\r' then ['\\', 'r']
  else if c.toNat < 0x20 then
    ['\\', 'u', '0', '0', hexDigit (c.toNat / 16), hexDigit (c.toNat % 16)]
  else [c]

def writeText (s : String) : List Char := '"' :: s.toList.flatMap escape ++ ['"']

def writeNatural (n : Nat) : List Char := Decimal.digitChars n

def writeBool (b : Bool) : List Char :=
  if b then ['t', 'r', 'u', 'e'] else ['f', 'a', 'l', 's', 'e']

/-- Texts with commas between them. -/
def commas : List (List Char) → List Char
  | [] => []
  | [t] => t
  | t :: ts => t ++ ',' :: commas ts

def writeList (items : List (List Char)) : List Char := '[' :: commas items ++ [']']

def writeMember (m : String × List Char) : List Char := writeText m.1 ++ ':' :: m.2

def writeObject (members : List (String × List Char)) : List Char :=
  '{' :: commas (members.map writeMember) ++ ['}']

end ReturnHints.Json
