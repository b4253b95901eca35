import ReturnHints.Decimal.Scaled
import ReturnHints.Json.Fault
import ReturnHints.Text.Units

/-!
# Blanks, words, strings and numbers of JSON

Each reader takes the characters that are left and gives the value with the characters after it.
A reader of strings starts behind the opening quote.
-/

namespace ReturnHints.Json

/-- Reads a value from the characters that are left, and gives it with those after it, or the
first fault. -/
abbrev Reader (α : Type) := List Char → Except Fault (α × List Char)

/-- Reads something of which only the end is of interest. -/
abbrev Skipper := List Char → Except Fault (List Char)

/-! ## Blanks and words -/

def isSpace (c : Char) : Bool := c == ' ' || c == '\t' || c == '\n' || c == '\r'

def skipSpaces (cs : List Char) : List Char := cs.dropWhile isSpace

/-- Reads exactly these letters. -/
def letters : List Char → Skipper
  | [], cs => .ok cs
  | _ :: _, [] => .error .truncated
  | w :: ws, c :: cs => if c = w then letters ws cs else .error .malformed

/-- Reads the colon between a key and its value. -/
def colon : Skipper := fun cs =>
  match skipSpaces cs with
  | [] => .error .truncated
  | c :: rest => if c = ':' then .ok rest else .error .malformed

/-! ## Strings -/

/-- The value of a hexadecimal digit. -/
def hexValue? (c : Char) : Option Nat :=
  if '0' ≤ c && c ≤ '9' then some (c.toNat - '0'.toNat)
  else if 'a' ≤ c && c ≤ 'f' then some (c.toNat - 'a'.toNat + 10)
  else if 'A' ≤ c && c ≤ 'F' then some (c.toNat - 'A'.toNat + 10)
  else none

/-- The value of four hexadecimal digits. -/
def hex4? (a b c d : Char) : Option Nat := do
  let high := (← hexValue? a) * 16 + (← hexValue? b)
  let low := (← hexValue? c) * 16 + (← hexValue? d)
  return high * 256 + low

/-- The fault of a `\u` without four digits behind it: the text ends too early if fewer than
four bytes are left. -/
def shortHex (rest : List Char) : Fault :=
  if 4 ≤ Text.byteLength rest then .malformed else .truncated

/-- The escapes of one letter. -/
def plainEscape? : Char → Option Char
  | '"' => some '"'
  | '\\' => some '\\'
  | '/' => some '/'
  | 'b' => some '\x08'
  | 'f' => some '\x0c'
  | 'n' => some '\n'
  | 'r' => some '\r'
  | 't' => some '\t'
  | _ => none

def isLeading (n : Nat) : Bool := 0xD800 ≤ n && n ≤ 0xDBFF

def isTrailing (n : Nat) : Bool := 0xDC00 ≤ n && n ≤ 0xDFFF

/-- The character of a pair of surrogates. -/
def joinSurrogates (leading trailing : Nat) : Char :=
  Char.ofNat ((leading - 0xD800) * 0x400 + (trailing - 0xDC00) + 0x10000)

/-- Puts a character before a string that was read. -/
def consChar (c : Char) : List Char × List Char → List Char × List Char
  | (cs, rest) => (c :: cs, rest)

/-- Reads a string up to its closing quote.  Control characters have to be escaped, and
surrogates come in pairs. -/
def string : Reader (List Char)
  | [] => .error .truncated
  | '"' :: rest => .ok ([], rest)
  | '\\' :: [] => .error .truncated
  | '\\' :: 'u' :: a :: b :: c :: d :: rest =>
    match hex4? a b c d with
    | none => .error .malformed
    | some n =>
      if isTrailing n then .error .malformed
      else if isLeading n then
        match rest with
        | [] => .error .truncated
        | ['\\'] => .error .truncated
        | '\\' :: 'u' :: a :: b :: c :: d :: rest =>
          match hex4? a b c d with
          | none => .error .malformed
          | some m =>
            if isTrailing m then (string rest).map (consChar (joinSurrogates n m))
            else .error .malformed
        | '\\' :: 'u' :: rest => .error (shortHex rest)
        | _ => .error .malformed
      else (string rest).map (consChar (Char.ofNat n))
  | '\\' :: 'u' :: rest => .error (shortHex rest)
  | '\\' :: e :: rest =>
    match plainEscape? e with
    | none => .error .malformed
    | some c => (string rest).map (consChar c)
  | c :: rest =>
    if c.toNat < 0x20 then .error .malformed
    else (string rest).map (consChar c)

/-- Skips a string up to its closing quote.  Surrogates need not come in pairs. -/
def skipString : Skipper
  | [] => .error .truncated
  | '"' :: rest => .ok rest
  | '\\' :: [] => .error .truncated
  | '\\' :: 'u' :: a :: b :: c :: d :: rest =>
    if (hex4? a b c d).isSome then skipString rest else .error .malformed
  | '\\' :: 'u' :: rest => .error (shortHex rest)
  | '\\' :: e :: rest => if (plainEscape? e).isSome then skipString rest else .error .malformed
  | c :: rest => if c.toNat < 0x20 then .error .malformed else skipString rest

/-! ## Numbers -/

def isDigit (c : Char) : Bool := '0' ≤ c && c ≤ '9'

def digitValue (c : Char) : Nat := c.toNat - '0'.toNat

/-- The values of the digits at the front. -/
def leadingDigits (cs : List Char) : List Nat := (cs.takeWhile isDigit).map digitValue

def afterDigits (cs : List Char) : List Char := cs.dropWhile isDigit

/-- The float of a decimal; one that is too large is no number. -/
def float (negative : Bool) (significand : Nat) (e : Int) : Reader Found := fun rest =>
  match Decimal.toFloat? negative significand e with
  | none => .error .malformed
  | some x => .ok (.float x, rest)

/-- Reads the exponent of a decimal, behind the `e`. -/
def exponent (negative : Bool) (significand : Nat) (e : Int) : Reader Found := fun cs =>
  let (down, cs) :=
    match cs with
    | '+' :: rest => (false, rest)
    | '-' :: rest => (true, rest)
    | _ => (false, cs)
  match cs with
  | [] => .error .truncated
  | c :: _ =>
    if isDigit c then
      let n : Int := Decimal.ofDigits (leadingDigits cs)
      float negative significand (if down then e - n else e + n) (afterDigits cs)
    else .error .malformed

/-- Reads the digits of a decimal behind the point, and the exponent if there is one. -/
def fraction (negative : Bool) (significand : Nat) (e : Int) : Reader Found := fun cs =>
  match cs with
  | [] => .error .truncated
  | c :: _ =>
    if isDigit c then
      let (significand, taken) := Decimal.absorb significand (leadingDigits cs)
      match afterDigits cs with
      | 'e' :: rest | 'E' :: rest => exponent negative significand (e - taken) rest
      | rest => float negative significand (e - taken) rest
    else .error .malformed

/-- The largest number with a sign that is no float, 2⁶³. -/
def maxNegative : Nat := 9223372036854775808

/-- A number without fraction and exponent.  One that is negative and zero, or below -2⁶³, is a
float. -/
def whole (negative : Bool) (n : Nat) : Reader Found := fun rest =>
  if negative then
    if n = 0 ∨ maxNegative < n then float true n 0 rest else .ok (.negative n, rest)
  else .ok (.natural n, rest)

/-- Reads a number behind its sign. -/
def number (negative : Bool) : Reader Found := fun cs =>
  match cs with
  | [] => .error .truncated
  | c :: after =>
    if !isDigit c || (c == '0' && after.head?.any isDigit) then .error .malformed
    else
      let ds := leadingDigits cs
      let (significand, taken) := Decimal.absorb 0 ds
      let dropped := ds.length - taken
      match afterDigits cs with
      | '.' :: rest => fraction negative significand dropped rest
      | 'e' :: rest | 'E' :: rest => exponent negative significand dropped rest
      | rest =>
        if dropped = 0 then whole negative significand rest
        else float negative significand dropped rest

/-- Skips the exponent of a number, behind the `e`. -/
def skipExponent : Skipper := fun cs =>
  let cs :=
    match cs with
    | '+' :: rest | '-' :: rest => rest
    | _ => cs
  if cs.head?.any isDigit then .ok (afterDigits cs) else .error .malformed

/-- Skips a number behind its sign, whatever its size.  A number that breaks off is no number
here. -/
def skipNumber : Skipper := fun cs =>
  match cs with
  | [] => .error .malformed
  | c :: after =>
    if !isDigit c || (c == '0' && after.head?.any isDigit) then .error .malformed
    else
      match afterDigits cs with
      | '.' :: rest =>
        if rest.head?.any isDigit then
          match afterDigits rest with
          | 'e' :: rest | 'E' :: rest => skipExponent rest
          | rest => .ok rest
        else .error .malformed
      | 'e' :: rest | 'E' :: rest => skipExponent rest
      | rest => .ok rest

end ReturnHints.Json
