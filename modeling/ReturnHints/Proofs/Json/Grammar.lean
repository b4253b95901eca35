import Mathlib.Data.List.Basic
import ReturnHints.Json.Record
import ReturnHints.Json.Write

/-!
# The grammar of JSON

The texts that are JSON, whatever is to be read from them: in strings any escape with four digits
may stand, numbers have any size, and brackets go as deep as they like.  A string that is correct in
this sense need not spell a text, since an escape may be half of a pair:

    StringText body      what may stand between the quotes of a string
    Spells body s        it spells the text s
    ValueText text       a value, without blanks around it
    ObjectText ms text   an object with these members, and blanks around it

The reader of strings reads exactly what is spelled (`string_eq_ok_iff`).
-/

namespace ReturnHints.Json

theorem exists_of_map {α β : Type} {x : Except Fault α} {f : α → β} {b : β}
    (h : x.map f = .ok b) : ∃ a, x = .ok a ∧ f a = b := by
  cases x with
  | error fault => cases h
  | ok a => exact ⟨a, rfl, Except.ok.inj h⟩

theorem bind_eq_ok_iff {α β : Type} {x : Except Fault α} {f : α → Except Fault β} {b : β} :
    x >>= f = .ok b ↔ ∃ a, x = .ok a ∧ f a = .ok b := by
  cases x with
  | error fault =>
    constructor
    · intro h
      cases h
    · rintro ⟨a, h, _⟩
      cases h
  | ok a =>
    constructor
    · intro h
      exact ⟨a, rfl, h⟩
    · rintro ⟨a', ha, h⟩
      cases ha
      exact h

/-! ## Blanks -/

theorem isSpace_iff {c : Char} :
    isSpace c = true ↔ c = ' ' ∨ c = '\t' ∨ c = '\n' ∨ c = '\r' := by
  simp [isSpace, or_assoc]

def Blank (ws : List Char) : Prop := ∀ c ∈ ws, isSpace c = true

instance (ws : List Char) : Decidable (Blank ws) := List.decidableBAll (isSpace · = true) ws

theorem blank_nil : Blank [] := by
  intro c hc
  cases hc

theorem skipSpaces_blank {ws : List Char} (h : Blank ws) {c : Char} (hc : isSpace c = false)
    (rest : List Char) : skipSpaces (ws ++ c :: rest) = c :: rest := by
  rw [skipSpaces, List.dropWhile_append_of_pos h, List.dropWhile_cons_of_neg (by simp [hc])]

theorem skipSpaces_all {ws : List Char} (h : Blank ws) : skipSpaces ws = [] := by
  rw [skipSpaces, ← List.append_nil ws, List.dropWhile_append_of_pos h, List.dropWhile_nil]

/-! ## Strings -/

/-- What may stand between the quotes of a string. -/
inductive StringText : List Char → Prop
  | nil : StringText []
  | plain {c body} : c ≠ '"' → c ≠ '\\' → 0x20 ≤ c.toNat → StringText body → StringText (c :: body)
  | short {e body} : (plainEscape? e).isSome → StringText body → StringText ('\\' :: e :: body)
  | unit {a b c d body} : (hex4? a b c d).isSome → StringText body →
      StringText ('\\' :: 'u' :: a :: b :: c :: d :: body)

/-- What stands between the quotes spells a text: four digits stand for a character of one unit, or
twice for one of two. -/
inductive Spells : List Char → List Char → Prop
  | nil : Spells [] []
  | plain {c body s} : c ≠ '"' → c ≠ '\\' → 0x20 ≤ c.toNat → Spells body s →
      Spells (c :: body) (c :: s)
  | short {e x body s} : plainEscape? e = some x → Spells body s →
      Spells ('\\' :: e :: body) (x :: s)
  | unit {a b c d n body s} : hex4? a b c d = some n → isTrailing n = false →
      isLeading n = false → Spells body s →
      Spells ('\\' :: 'u' :: a :: b :: c :: d :: body) (Char.ofNat n :: s)
  | pair {a b c d n a' b' c' d' m body s} : hex4? a b c d = some n → isLeading n = true →
      hex4? a' b' c' d' = some m → isTrailing m = true → Spells body s →
      Spells ('\\' :: 'u' :: a :: b :: c :: d :: '\\' :: 'u' :: a' :: b' :: c' :: d' :: body)
        (joinSurrogates n m :: s)

/-- Nothing in it is escaped or has to be. -/
def Bare (body : List Char) : Prop := ∀ c ∈ body, c ≠ '"' ∧ c ≠ '\\' ∧ 0x20 ≤ c.toNat

instance (body : List Char) : Decidable (Bare body) :=
  List.decidableBAll (fun c => c ≠ '"' ∧ c ≠ '\\' ∧ 0x20 ≤ c.toNat) body

theorem Bare.spells {body : List Char} (h : Bare body) : Spells body body := by
  induction body with
  | nil => exact .nil
  | cons c body ih =>
    obtain ⟨⟨hquote, hslash, hlow⟩, hbody⟩ := List.forall_mem_cons.1 h
    exact .plain hquote hslash hlow (ih hbody)

theorem Spells.stringText {body s : List Char} (h : Spells body s) : StringText body := by
  induction h with
  | nil => exact .nil
  | plain hquote hslash hlow _ ih => exact .plain hquote hslash hlow ih
  | short hescape _ ih => exact .short (by rw [hescape]; rfl) ih
  | unit hhex _ _ _ ih => exact .unit (by rw [hhex]; rfl) ih
  | pair hhex _ hhex' _ _ ih => exact .unit (by rw [hhex]; rfl) (.unit (by rw [hhex']; rfl) ih)

theorem not_trailing_of_leading {n : Nat} (h : isLeading n = true) : isTrailing n = false := by
  simp [isLeading, isTrailing] at *
  omega

theorem string_plain {c : Char} (hquote : c ≠ '"') (hslash : c ≠ '\\') (hlow : 0x20 ≤ c.toNat)
    (rest : List Char) : string (c :: rest) = (string rest).map (consChar c) := by
  have hhigh : ¬ c.toNat < 0x20 := by omega
  rw [string]
  · simp [hhigh]
  all_goals simp_all

theorem ne_u_of_plainEscape? {e x : Char} (h : plainEscape? e = some x) : e ≠ 'u' := by
  rintro rfl
  cases h

theorem string_short {e x : Char} (h : plainEscape? e = some x) (rest : List Char) :
    string ('\\' :: e :: rest) = (string rest).map (consChar x) := by
  have hu := ne_u_of_plainEscape? h
  rw [string]
  · rw [h]
  all_goals simp_all

theorem string_unit {a b c d : Char} {n : Nat} (h : hex4? a b c d = some n)
    (htrailing : isTrailing n = false) (hleading : isLeading n = false) (rest : List Char) :
    string ('\\' :: 'u' :: a :: b :: c :: d :: rest) =
      (string rest).map (consChar (Char.ofNat n)) := by
  rw [string, h]
  simp [htrailing, hleading]

theorem string_pair {a b c d a' b' c' d' : Char} {n m : Nat} (h : hex4? a b c d = some n)
    (hleading : isLeading n = true) (h' : hex4? a' b' c' d' = some m)
    (htrailing : isTrailing m = true) (rest : List Char) :
    string ('\\' :: 'u' :: a :: b :: c :: d :: '\\' :: 'u' :: a' :: b' :: c' :: d' :: rest) =
      (string rest).map (consChar (joinSurrogates n m)) := by
  rw [string, h]
  simp [not_trailing_of_leading hleading, hleading, h', htrailing]

/-- What is spelled is read. -/
theorem string_of_spells {body s : List Char} (h : Spells body s) (rest : List Char) :
    string (body ++ '"' :: rest) = .ok (s, rest) := by
  induction h with
  | nil => rfl
  | plain hquote hslash hlow _ ih =>
    rw [List.cons_append, string_plain hquote hslash hlow, ih]
    rfl
  | short hescape _ ih =>
    rw [List.cons_append, List.cons_append, string_short hescape, ih]
    rfl
  | unit hhex htrailing hleading _ ih =>
    simp only [List.cons_append]
    rw [string_unit hhex htrailing hleading, ih]
    rfl
  | pair hhex hleading hhex' htrailing _ ih =>
    simp only [List.cons_append]
    rw [string_pair hhex hleading hhex' htrailing, ih]
    rfl

theorem Spells.unique {body s s' : List Char} (h : Spells body s) (h' : Spells body s') :
    s = s' := by
  have hboth := (string_of_spells h []).symm.trans (string_of_spells h' [])
  exact congrArg Prod.fst (Except.ok.inj hboth)

theorem exists_of_map_consChar {x : Except Fault (List Char × List Char)} {c : Char}
    {s tail : List Char} (h : x.map (consChar c) = .ok (s, tail)) :
    ∃ s', s = c :: s' ∧ x = .ok (s', tail) := by
  obtain ⟨⟨s', tail'⟩, hx, heq⟩ := exists_of_map h
  cases heq
  exact ⟨s', rfl, hx⟩

theorem not_trailing_of_string {a b c d : Char} {n : Nat} (h : hex4? a b c d = some n)
    {rest s tail : List Char}
    (hread : string ('\\' :: 'u' :: a :: b :: c :: d :: rest) = .ok (s, tail)) :
    isTrailing n = false := by
  cases htrailing : isTrailing n with
  | false => rfl
  | true =>
    rw [string, h] at hread
    simp [htrailing] at hread

/-- An escape that is the first half of a pair is read only with the other half behind it. -/
theorem exists_pair {a b c d : Char} {n : Nat} (h : hex4? a b c d = some n)
    (hleading : isLeading n = true) {rest s tail : List Char}
    (hread : string ('\\' :: 'u' :: a :: b :: c :: d :: rest) = .ok (s, tail)) :
    ∃ a' b' c' d' m rest', rest = '\\' :: 'u' :: a' :: b' :: c' :: d' :: rest' ∧
      hex4? a' b' c' d' = some m ∧ isTrailing m = true := by
  rw [string, h] at hread
  simp only [not_trailing_of_leading hleading, hleading, Bool.false_eq_true, if_false,
    if_true] at hread
  split at hread
  · cases hread
  · cases hread
  · next a' b' c' d' rest' =>
    split at hread
    · cases hread
    · next m hhex =>
      split at hread
      · next htrailing => exact ⟨a', b', c', d', m, rest', rfl, hhex, htrailing⟩
      · cases hread
  · cases hread
  · cases hread

/-- What is read was spelled. -/
theorem spells_of_string {body : List Char} (h : StringText body) {rest s tail : List Char}
    (hread : string (body ++ '"' :: rest) = .ok (s, tail)) : tail = rest ∧ Spells body s := by
  -- a pair takes two escapes at once, so the induction is on the length
  induction hlen : body.length using Nat.strongRecOn generalizing body s with
  | ind k ih =>
  subst hlen
  cases h with
  | nil =>
    cases hread
    exact ⟨rfl, .nil⟩
  | @plain c body hquote hslash hlow hbody =>
    rw [List.cons_append, string_plain hquote hslash hlow] at hread
    obtain ⟨s', rfl, hmore⟩ := exists_of_map_consChar hread
    obtain ⟨htail, hspells⟩ := ih _ (by simp only [List.length_cons]; omega) hbody hmore rfl
    exact ⟨htail, .plain hquote hslash hlow hspells⟩
  | @short e body hescape hbody =>
    obtain ⟨x, hx⟩ := Option.isSome_iff_exists.1 hescape
    rw [List.cons_append, List.cons_append, string_short hx] at hread
    obtain ⟨s', rfl, hmore⟩ := exists_of_map_consChar hread
    obtain ⟨htail, hspells⟩ := ih _ (by simp only [List.length_cons]; omega) hbody hmore rfl
    exact ⟨htail, .short hx hspells⟩
  | @unit a b c d body hhex hbody =>
    obtain ⟨n, hn⟩ := Option.isSome_iff_exists.1 hhex
    simp only [List.cons_append] at hread
    cases hleading : isLeading n with
    | false =>
      have htrailing := not_trailing_of_string hn hread
      rw [string_unit hn htrailing hleading] at hread
      obtain ⟨s', rfl, hmore⟩ := exists_of_map_consChar hread
      obtain ⟨htail, hspells⟩ := ih _ (by simp only [List.length_cons]; omega) hbody hmore rfl
      exact ⟨htail, .unit hn htrailing hleading hspells⟩
    | true =>
      obtain ⟨a', b', c', d', m, rest', hrest, hm, htrailing⟩ := exists_pair hn hleading hread
      cases hbody with
      | nil => cases hrest
      | plain _ hslash _ _ => exact absurd (List.cons.inj hrest).1 hslash
      | short hescape _ =>
        obtain ⟨x, hx⟩ := Option.isSome_iff_exists.1 hescape
        exact absurd (List.cons.inj (List.cons.inj hrest).2).1 (ne_u_of_plainEscape? hx)
      | @unit a'' b'' c'' d'' body _ hbody =>
        simp only [List.cons_append, List.cons.injEq, true_and] at hrest
        obtain ⟨rfl, rfl, rfl, rfl, rfl⟩ := hrest
        rw [List.cons_append, List.cons_append, List.cons_append, List.cons_append,
          List.cons_append, List.cons_append, string_pair hn hleading hm htrailing] at hread
        obtain ⟨s', rfl, hmore⟩ := exists_of_map_consChar hread
        obtain ⟨htail, hspells⟩ := ih _ (by simp only [List.length_cons]; omega) hbody hmore rfl
        exact ⟨htail, .pair hn hleading hm htrailing hspells⟩

/-- A string is read as what it spells, and only then. -/
theorem string_eq_ok_iff {body : List Char} (h : StringText body) {rest s tail : List Char} :
    string (body ++ '"' :: rest) = .ok (s, tail) ↔ tail = rest ∧ Spells body s := by
  constructor
  · exact spells_of_string h
  · rintro ⟨rfl, hspells⟩
    exact string_of_spells hspells _

/-! ## Numbers -/

theorem not_space_of_isDigit {c : Char} (h : isDigit c = true) : isSpace c = false ∧ c ≠ '-' := by
  constructor
  · cases hspace : isSpace c with
    | false => rfl
    | true =>
      rcases isSpace_iff.1 hspace with rfl | rfl | rfl | rfl <;> cases h
  · rintro rfl
    cases h

def Digits (ds : List Char) : Prop := ds ≠ [] ∧ ∀ d ∈ ds, isDigit d = true

instance (ds : List Char) : Decidable (Digits ds) :=
  have := List.decidableBAll (isDigit · = true) ds
  instDecidableAnd

/-- A number without sign, fraction and exponent: zero, or digits of which the first is not 0. -/
inductive WholeText : List Char → Prop
  | zero : WholeText ['0']
  | digits {d ds} : d ≠ '0' → Digits (d :: ds) → WholeText (d :: ds)

inductive FractionText : List Char → Prop
  | absent : FractionText []
  | digits {ds} : Digits ds → FractionText ('.' :: ds)

inductive ExponentText : List Char → Prop
  | absent : ExponentText []
  | digits {e sign ds} : e ∈ ['e', 'E'] → sign ∈ [[], ['+'], ['-']] → Digits ds →
      ExponentText (e :: (sign ++ ds))

inductive NumberText : List Char → Prop
  | mk {sign whole fraction exponent} : sign ∈ [[], ['-']] → WholeText whole →
      FractionText fraction → ExponentText exponent →
      NumberText (sign ++ whole ++ fraction ++ exponent)

theorem WholeText.head {text : List Char} (h : WholeText text) :
    ∃ c rest, text = c :: rest ∧ isDigit c = true := by
  cases h with
  | zero => exact ⟨'0', [], rfl, by decide⟩
  | @digits d ds _ hdigits => exact ⟨d, ds, rfl, hdigits.2 d List.mem_cons_self⟩

/-- A number starts with its sign or a digit. -/
theorem NumberText.head {text : List Char} (h : NumberText text) :
    ∃ c rest, text = c :: rest ∧ (c = '-' ∨ isDigit c = true) := by
  obtain ⟨hsign, hwhole, _, _⟩ := h
  obtain ⟨c, rest, rfl, hc⟩ := hwhole.head
  rcases (by simpa using hsign : _ = [] ∨ _ = ['-']) with rfl | rfl
  · exact ⟨c, _, rfl, .inr hc⟩
  · exact ⟨'-', _, rfl, .inl rfl⟩

/-! ## Values and objects -/

/-- A member of an object: what stands between the quotes of its key, and its value. -/
structure Member where
  key : List Char
  value : List Char

/-- The keys spell different texts, if any. -/
def Member.Apart (m m' : Member) : Prop := ∀ s, Spells m.key s → ¬ Spells m'.key s

theorem Member.Apart.symm {m m' : Member} (h : m.Apart m') : m'.Apart m :=
  fun s hs hs' => h s hs' hs

mutual

inductive ValueText : List Char → Prop
  | null : ValueText ['n', 'u', 'l', 'l']
  | bool (b : Bool) : ValueText (writeBool b)
  | number {text} : NumberText text → ValueText text
  | string {body} : StringText body → ValueText ('"' :: (body ++ ['"']))
  | emptyList {ws} : Blank ws → ValueText ('[' :: (ws ++ [']']))
  | list {items} : ItemsText items → ValueText ('[' :: (items ++ [']']))
  | emptyObject {ws} : Blank ws → ValueText ('{' :: (ws ++ ['}']))
  | object {ms members} : MembersText ms members → ValueText ('{' :: (members ++ ['}']))

/-- The items of a list, with the blanks around them. -/
inductive ItemsText : List Char → Prop
  | last {ws value ws'} : Blank ws → ValueText value → Blank ws' → ItemsText (ws ++ value ++ ws')
  | more {ws value ws' items} : Blank ws → ValueText value → Blank ws' → ItemsText items →
      ItemsText (ws ++ value ++ ws' ++ ',' :: items)

/-- A member of an object, with the blanks around it. -/
inductive MemberText : Member → List Char → Prop
  | mk {m ws₁ ws₂ ws₃ ws₄} : Blank ws₁ → StringText m.key → Blank ws₂ → Blank ws₃ →
      ValueText m.value → Blank ws₄ →
      MemberText m (ws₁ ++ '"' :: (m.key ++ '"' :: (ws₂ ++ ':' :: (ws₃ ++ m.value ++ ws₄))))

inductive MembersText : List Member → List Char → Prop
  | last {m text} : MemberText m text → MembersText [m] text
  | more {m text ms members} : MemberText m text → MembersText ms members →
      MembersText (m :: ms) (text ++ ',' :: members)

end

/-- A whole text that is an object with these members. -/
inductive ObjectText : List Member → List Char → Prop
  | empty {before inside behind} : Blank before → Blank inside → Blank behind →
      ObjectText [] (before ++ '{' :: (inside ++ '}' :: behind))
  | members {ms before members behind} : Blank before → MembersText ms members → Blank behind →
      ObjectText ms (before ++ '{' :: (members ++ '}' :: behind))

/-- Key and value of a member are JSON. -/
structure Member.Correct (m : Member) : Prop where
  key : StringText m.key
  value : ValueText m.value

theorem MemberText.correct {m : Member} {text : List Char} (h : MemberText m text) :
    m.Correct := by
  obtain ⟨_, hkey, _, _, hvalue, _⟩ := h
  exact ⟨hkey, hvalue⟩

theorem MembersText.correct : ∀ {ms : List Member} {text : List Char}, MembersText ms text →
    ∀ m ∈ ms, m.Correct
  | _, _, .last hm => List.forall_mem_singleton.2 hm.correct
  | _, _, .more hm hms => List.forall_mem_cons.2 ⟨hm.correct, hms.correct⟩

/-! ## Values with their parts -/

/-- The items of a list one by one, with the blanks around them. -/
inductive ItemTexts : List (List Char) → List Char → Prop
  | last {ws value ws'} : Blank ws → ValueText value → Blank ws' →
      ItemTexts [value] (ws ++ value ++ ws')
  | more {ws value ws' values items} : Blank ws → ValueText value → Blank ws' →
      ItemTexts values items → ItemTexts (value :: values) (ws ++ value ++ ws' ++ ',' :: items)

theorem ItemsText.exists_itemTexts : ∀ {text : List Char}, ItemsText text →
    ∃ values, ItemTexts values text
  | _, .last hws hvalue hws' => ⟨_, .last hws hvalue hws'⟩
  | _, .more hws hvalue hws' hitems => by
    obtain ⟨values, hvalues⟩ := hitems.exists_itemTexts
    exact ⟨_, .more hws hvalue hws' hvalues⟩

theorem ItemTexts.itemsText {values : List (List Char)} {text : List Char}
    (h : ItemTexts values text) : ItemsText text := by
  induction h with
  | last hws hvalue hws' => exact .last hws hvalue hws'
  | more hws hvalue hws' _ ih => exact .more hws hvalue hws' ih

/-- A value that is an object with these members. -/
inductive BracesText : List Member → List Char → Prop
  | empty {ws} : Blank ws → BracesText [] ('{' :: (ws ++ ['}']))
  | members {ms members} : MembersText ms members → BracesText ms ('{' :: (members ++ ['}']))

theorem BracesText.correct {ms : List Member} {value : List Char} (h : BracesText ms value) :
    ∀ m ∈ ms, m.Correct := by
  cases h with
  | empty =>
    intro m hm
    cases hm
  | members hms => exact hms.correct

theorem BracesText.valueText {ms : List Member} {value : List Char} (h : BracesText ms value) :
    ValueText value := by
  cases h with
  | empty hws => exact .emptyObject hws
  | members hms => exact .object hms

/-- A value that is a list with these items. -/
inductive BracketsText : List (List Char) → List Char → Prop
  | empty {ws} : Blank ws → BracketsText [] ('[' :: (ws ++ [']']))
  | items {values items} : ItemTexts values items → BracketsText values ('[' :: (items ++ [']']))

theorem BracketsText.valueText {values : List (List Char)} {value : List Char}
    (h : BracketsText values value) : ValueText value := by
  cases h with
  | empty hws => exact .emptyList hws
  | items hitems => exact .list hitems.itemsText

/-- A whole text that is a list with these items. -/
inductive ListText : List (List Char) → List Char → Prop
  | mk {values before value behind} : Blank before → BracketsText values value → Blank behind →
      ListText values (before ++ value ++ behind)

theorem ObjectText.exists_braces {ms : List Member} {text : List Char} (h : ObjectText ms text) :
    ∃ before value behind, text = before ++ value ++ behind ∧ Blank before ∧ BracesText ms value ∧
      Blank behind := by
  cases h with
  | @empty before inside behind hbefore hinside hbehind =>
    exact ⟨before, _, behind, by simp, hbefore, .empty hinside, hbehind⟩
  | @members ms before inside behind hbefore hmembers hbehind =>
    exact ⟨before, _, behind, by simp, hbefore, .members hmembers, hbehind⟩

theorem ObjectText.correct {ms : List Member} {text : List Char} (h : ObjectText ms text) :
    ∀ m ∈ ms, m.Correct := by
  obtain ⟨_, _, _, _, _, hbraces, _⟩ := h.exists_braces
  exact hbraces.correct

end ReturnHints.Json
