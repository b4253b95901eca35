/-!
# Blank characters and words of settings

Settings are written by hand, so a word counts whatever blanks stand around it and however its
letters are cased.  Blank are the characters with the property White_Space.
-/

namespace ReturnHints.Text

/-- The characters with the property White_Space. -/
def isBlank (c : Char) : Bool :=
  ('\t' ≤ c && c ≤ '\r') || c == ' ' || c == '\u0085' || c == '\u00a0' || c == '\u1680'
    || ('\u2000' ≤ c && c ≤ '\u200a') || c == '\u2028' || c == '\u2029' || c == '\u202f'
    || c == '\u205f' || c == '\u3000'

/-- Drops the blanks at both ends. -/
def trim (cs : List Char) : List Char :=
  ((cs.dropWhile isBlank).reverse.dropWhile isBlank).reverse

/-- A word of a setting, without the blanks around it and in lower case.  Only the letters A to Z
are lowered: of all other letters only U+0130 and U+212A have a lower case with a letter from a
to z in it, an `i` and a `k`, and no word that is looked for has those. -/
def settingWord (s : String) : String :=
  String.ofList ((trim s.toList).map Char.toLower)

end ReturnHints.Text
