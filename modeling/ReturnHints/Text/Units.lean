/-!
# Units of text

A text is a list of characters.  Offsets into it count bytes of its UTF-8 form and columns
count UTF-16 units.  An offset is a *boundary* if some prefix of the text has exactly that
many bytes; cutting, searching and rounding down are all stated with boundaries:

    dropBytes? cs o = some rest      the text after the first `o` bytes, if `o` is a boundary
    slice? cs a b                    the text between two boundaries `a ≤ b`
    floorBoundary cs o               the largest boundary that is at most `o`
    find? word cs                    the least offset at which `word` occurs
-/

namespace ReturnHints.Text

/-! ## Sizes -/

/-- Number of bytes of the UTF-8 form. -/
def byteLength : List Char → Nat
  | [] => 0
  | c :: cs => c.utf8Size + byteLength cs

/-- Number of UTF-16 units of one character: two beyond the basic plane. -/
def units16 (c : Char) : Nat :=
  if c.val < 0x10000 then 1 else 2

/-- Number of UTF-16 units of a text. -/
def unitLength : List Char → Nat
  | [] => 0
  | c :: cs => units16 c + unitLength cs

/-! ## Cutting at byte offsets -/

/-- The text after its first `o` bytes; none if `o` is no boundary. -/
def dropBytes? : List Char → Nat → Option (List Char)
  | cs, 0 => some cs
  | [], _ + 1 => none
  | c :: cs, o + 1 =>
    if c.utf8Size ≤ o + 1 then dropBytes? cs (o + 1 - c.utf8Size) else none

/-- The first `o` bytes of the text; none if `o` is no boundary. -/
def takeBytes? : List Char → Nat → Option (List Char)
  | _, 0 => some []
  | [], _ + 1 => none
  | c :: cs, o + 1 =>
    if c.utf8Size ≤ o + 1 then (takeBytes? cs (o + 1 - c.utf8Size)).map (c :: ·) else none

/-- Whether some prefix of the text has exactly `o` bytes. -/
def isBoundary (cs : List Char) (o : Nat) : Bool :=
  (dropBytes? cs o).isSome

/-- The text between the offsets `start` and `stop`; none unless both are boundaries and
`start ≤ stop`. -/
def slice? (cs : List Char) (start stop : Nat) : Option (List Char) :=
  if start ≤ stop then
    (dropBytes? cs start).bind (takeBytes? · (stop - start))
  else none

/-- The largest boundary that is at most `o`; past the end this is the end of the text. -/
def floorBoundary : List Char → Nat → Nat
  | [], _ => 0
  | c :: cs, o =>
    if c.utf8Size ≤ o then c.utf8Size + floorBoundary cs (o - c.utf8Size) else 0

/-! ## Searching -/

/-- Byte offset of the first occurrence of `word`; the empty word occurs at once. -/
def find? (word : List Char) : List Char → Option Nat
  | [] => if word.isEmpty then some 0 else none
  | c :: cs =>
    if word.isPrefixOf (c :: cs) then some 0
    else (find? word cs).map (c.utf8Size + ·)

/-! ## Lemmas -/

@[simp] theorem byteLength_nil : byteLength [] = 0 := rfl

@[simp] theorem byteLength_cons (c : Char) (cs : List Char) :
    byteLength (c :: cs) = c.utf8Size + byteLength cs := rfl

@[simp] theorem byteLength_append (xs ys : List Char) :
    byteLength (xs ++ ys) = byteLength xs + byteLength ys := by
  induction xs with
  | nil => simp
  | cons c xs ih => simp [ih, Nat.add_assoc]

@[simp] theorem unitLength_append (xs ys : List Char) :
    unitLength (xs ++ ys) = unitLength xs + unitLength ys := by
  induction xs with
  | nil => simp [unitLength]
  | cons c xs ih => simp [unitLength, ih, Nat.add_assoc]

theorem dropBytes?_zero (cs : List Char) : dropBytes? cs 0 = some cs := by
  cases cs <;> rfl

theorem takeBytes?_zero (cs : List Char) : takeBytes? cs 0 = some [] := by
  cases cs <;> rfl

theorem dropBytes?_cons (c : Char) (cs : List Char) (o : Nat) (h : c.utf8Size ≤ o) :
    dropBytes? (c :: cs) o = dropBytes? cs (o - c.utf8Size) := by
  have := c.utf8Size_pos
  cases o with
  | zero => omega
  | succ o => simp [dropBytes?, h]

theorem takeBytes?_cons (c : Char) (cs : List Char) (o : Nat) (h : c.utf8Size ≤ o) :
    takeBytes? (c :: cs) o = (takeBytes? cs (o - c.utf8Size)).map (c :: ·) := by
  have := c.utf8Size_pos
  cases o with
  | zero => omega
  | succ o => simp [takeBytes?, h]

theorem dropBytes?_append (xs ys : List Char) :
    dropBytes? (xs ++ ys) (byteLength xs) = some ys := by
  induction xs with
  | nil => exact dropBytes?_zero ys
  | cons c xs ih =>
    rw [List.cons_append, byteLength_cons, dropBytes?_cons c _ _ (by omega),
      Nat.add_sub_cancel_left, ih]

theorem takeBytes?_append (xs ys : List Char) :
    takeBytes? (xs ++ ys) (byteLength xs) = some xs := by
  induction xs with
  | nil => exact takeBytes?_zero ys
  | cons c xs ih =>
    rw [List.cons_append, byteLength_cons, takeBytes?_cons c _ _ (by omega),
      Nat.add_sub_cancel_left, ih]
    rfl

/-- Dropping bytes gives exactly the text behind a prefix of that many bytes. -/
theorem dropBytes?_eq_some_iff {cs : List Char} {o : Nat} {rest : List Char} :
    dropBytes? cs o = some rest ↔ ∃ front, cs = front ++ rest ∧ byteLength front = o := by
  constructor
  · intro h
    induction cs generalizing o with
    | nil =>
      cases o with
      | zero =>
        obtain rfl := Option.some.inj h
        exact ⟨[], rfl, rfl⟩
      | succ o => simp [dropBytes?] at h
    | cons c cs ih =>
      cases o with
      | zero =>
        obtain rfl := Option.some.inj h
        exact ⟨[], rfl, rfl⟩
      | succ o =>
        by_cases hc : c.utf8Size ≤ o + 1
        · rw [dropBytes?_cons c cs _ hc] at h
          obtain ⟨front, rfl, hf⟩ := ih h
          exact ⟨c :: front, rfl, by rw [byteLength_cons, hf]; omega⟩
        · simp [dropBytes?, hc] at h
  · rintro ⟨front, rfl, rfl⟩
    exact dropBytes?_append front rest

/-- Taking bytes gives exactly the prefix of that many bytes. -/
theorem takeBytes?_eq_some_iff {cs : List Char} {o : Nat} {front : List Char} :
    takeBytes? cs o = some front ↔ ∃ rest, cs = front ++ rest ∧ byteLength front = o := by
  constructor
  · intro h
    induction cs generalizing o front with
    | nil =>
      cases o with
      | zero =>
        obtain rfl := Option.some.inj h
        exact ⟨[], rfl, rfl⟩
      | succ o => simp [takeBytes?] at h
    | cons c cs ih =>
      cases o with
      | zero =>
        obtain rfl := Option.some.inj h
        exact ⟨c :: cs, rfl, rfl⟩
      | succ o =>
        by_cases hc : c.utf8Size ≤ o + 1
        · rw [takeBytes?_cons c cs _ hc] at h
          obtain ⟨f, hf, rfl⟩ := Option.map_eq_some_iff.1 h
          obtain ⟨rest, rfl, hl⟩ := ih hf
          exact ⟨rest, rfl, by rw [byteLength_cons, hl]; omega⟩
        · simp [takeBytes?, hc] at h
  · rintro ⟨rest, rfl, rfl⟩
    exact takeBytes?_append front rest

/-- A slice is the middle part of a text cut in three. -/
theorem slice?_eq_some_iff {cs : List Char} {a b : Nat} {mid : List Char} :
    slice? cs a b = some mid ↔
      ∃ front rest, cs = front ++ mid ++ rest ∧ byteLength front = a ∧
        byteLength (front ++ mid) = b := by
  constructor
  · intro h
    by_cases hab : a ≤ b
    · simp only [slice?, hab, if_true] at h
      obtain ⟨tail, ht, hm⟩ := Option.bind_eq_some_iff.1 h
      obtain ⟨front, rfl, hf⟩ := dropBytes?_eq_some_iff.1 ht
      obtain ⟨rest, rfl, hr⟩ := takeBytes?_eq_some_iff.1 hm
      exact ⟨front, rest, by simp, hf, by rw [byteLength_append, hf, hr]; omega⟩
    · simp [slice?, hab] at h
  · rintro ⟨front, rest, rfl, rfl, rfl⟩
    rw [slice?, if_pos (by simp), List.append_assoc, dropBytes?_append, byteLength_append,
      Nat.add_sub_cancel_left]
    exact takeBytes?_append mid rest

theorem floorBoundary_le (cs : List Char) (o : Nat) : floorBoundary cs o ≤ o := by
  induction cs generalizing o with
  | nil => simp [floorBoundary]
  | cons c cs ih =>
    simp only [floorBoundary]
    split
    · have := ih (o - c.utf8Size)
      omega
    · omega

end ReturnHints.Text
