import ReturnHints.Proofs.LineMap

/-!
# The lines of a text

The starts in a line map are where its lines begin: cut there, the text falls into lines, each of
which ends with its one line break, but for the last, which has none.  What a line is does not
speak of offsets:

    HasLines cs lines        the text is its lines, one behind the other
    startsOf o lines         where they begin, if the first one begins at o

and the starts that are collected character by character are those of the lines (`exists_lines`).
-/

namespace ReturnHints

/-! ## What a line is -/

/-- Without any character that ends a line. -/
def BreakFree (cs : List Char) : Prop :=
  ∀ c ∈ cs, c ∉ ['\n', '\r', '\u2028', '\u2029']

instance (cs : List Char) : Decidable (BreakFree cs) :=
  List.decidableBAll (· ∉ ['\n', '\r', '\u2028', '\u2029']) cs

/-- Whether `brk`, before `rest`, is one line break: a `\r` is one only if no `\n` follows. -/
def IsBreak (brk rest : List Char) : Prop :=
  brk ∈ [['\n'], ['\r', '\n'], ['\u2028'], ['\u2029']] ∨ brk = ['\r'] ∧ rest.head? ≠ some '\n'

/-- The lines of a text.  Each but the last ends with a break and has no other. -/
inductive HasLines : List Char → List (List Char) → Prop
  | last {body : List Char} : BreakFree body → HasLines body [body]
  | line {body brk rest : List Char} {lines : List (List Char)} :
      BreakFree body → IsBreak brk rest → HasLines rest lines →
      HasLines (body ++ brk ++ rest) ((body ++ brk) :: lines)

theorem isLineBreak_iff (c : Char) :
    isLineBreak c = true ↔ c ∈ ['\n', '\r', '\u2028', '\u2029'] := by
  simp [isLineBreak, or_assoc]

theorem breakFree_nil : BreakFree [] := by
  intro c hc
  cases hc

theorem BreakFree.cons {c : Char} {cs : List Char} (hc : isLineBreak c = false)
    (hcs : BreakFree cs) : BreakFree (c :: cs) := by
  intro d hd
  rcases List.mem_cons.1 hd with rfl | hd
  · rw [← isLineBreak_iff, hc]
    exact Bool.false_ne_true
  · exact hcs d hd

/-- A character that ends a line is a break of its own, unless it is a `\r` before `\n`. -/
theorem isBreak_singleton {c : Char} {rest : List Char} (hc : isLineBreak c = true)
    (hpair : c = '\r' → rest.head? ≠ some '\n') : IsBreak [c] rest := by
  rw [isLineBreak_iff] at hc
  by_cases hr : c = '\r'
  · subst hr
    exact .inr ⟨rfl, hpair rfl⟩
  · refine .inl ?_
    simpa [hr] using hc

namespace HasLines

variable {cs : List Char} {lines : List (List Char)}

theorem flatten (h : HasLines cs lines) : lines.flatten = cs := by
  induction h with
  | last _ => simp
  | line _ _ _ ih => rw [List.flatten_cons, ih]

/-- A break in front is an empty line. -/
theorem lead {brk : List Char} (h : HasLines cs lines) (hbrk : IsBreak brk cs) :
    HasLines (brk ++ cs) (brk :: lines) :=
  .line breakFree_nil hbrk h

/-- A character that ends no line belongs to the first line. -/
theorem cons {c : Char} (hc : isLineBreak c = false) (h : HasLines cs lines) :
    ∃ first others, lines = first :: others ∧ HasLines (c :: cs) ((c :: first) :: others) := by
  cases h with
  | last hbody => exact ⟨cs, [], rfl, .last (hbody.cons hc)⟩
  | line hbody hbrk hrest => exact ⟨_, _, rfl, .line (hbody.cons hc) hbrk hrest⟩

/-- A line is without breaks if it is the last one, and has its break at its end otherwise. -/
theorem line_at (h : HasLines cs lines) {before after : List (List Char)} {line : List Char}
    (hline : lines = before ++ line :: after) :
    (after = [] → BreakFree line) ∧
      (after ≠ [] → ∃ body brk, line = body ++ brk ∧ BreakFree body ∧
        IsBreak brk after.flatten) := by
  induction h generalizing before with
  | last hbody =>
    cases before with
    | nil =>
      cases hline
      exact ⟨fun _ => hbody, fun hne => absurd rfl hne⟩
    | cons first before => simp at hline
  | line hbody hbrk hrest ih =>
    cases before with
    | nil =>
      cases hline
      refine ⟨fun hnil => ?_, fun _ => ⟨_, _, rfl, hbody, ?_⟩⟩
      · subst hnil
        cases hrest
      · rw [hrest.flatten]
        exact hbrk
    | cons first before =>
      rw [List.cons_append] at hline
      exact ih (List.cons.inj hline).2

end HasLines

/-! ## Where lines start -/

/-- Where pieces that stand one behind the other start, the first one at `o`. -/
def startsOf (o : Nat) : List (List Char) → List Nat
  | [] => []
  | piece :: pieces => o :: startsOf (o + Text.byteLength piece) pieces

/-- The offsets behind the breaks are the starts of all lines but the first. -/
theorem exists_lines (o : Nat) (cs : List Char) :
    ∃ lines, HasLines cs lines ∧ o :: breakEnds o cs = startsOf o lines := by
  fun_induction breakEnds o cs with
  | case1 o => exact ⟨[[]], .last breakFree_nil, rfl⟩
  | case2 o rest ih =>
    obtain ⟨lines, hlines, hstarts⟩ := ih
    have hbrk : IsBreak ['\r', '\n'] rest := .inl (by simp)
    refine ⟨['\r', '\n'] :: lines, hlines.lead hbrk, ?_⟩
    rw [hstarts]
    rfl
  | case3 o c rest hpair hc ih =>
    obtain ⟨lines, hlines, hstarts⟩ := ih
    have hbrk : IsBreak [c] rest := isBreak_singleton hc fun hr hn => by
      obtain ⟨rest', rfl⟩ := List.head?_eq_some_iff.1 hn
      exact hpair rest' hr rfl
    refine ⟨[c] :: lines, hlines.lead hbrk, ?_⟩
    rw [hstarts]
    rfl
  | case4 o c rest hpair hc ih =>
    -- the first line of the rest begins one character earlier
    obtain ⟨lines, hlines, hstarts⟩ := ih
    obtain ⟨first, others, rfl, hcons⟩ := hlines.cons (by simpa using hc)
    refine ⟨(c :: first) :: others, hcons, ?_⟩
    rw [startsOf, List.cons.injEq] at hstarts
    rw [startsOf, hstarts.2, Text.byteLength_cons, Nat.add_assoc]

/-! ## Cutting -/

namespace Text

/-- The pieces of a text between the offsets at which it is cut, and behind the last one. -/
def pieces? (cs : List Char) : List Nat → Option (List (List Char))
  | [] => some []
  | [a] => (slice? cs a (byteLength cs)).map ([·])
  | a :: b :: offsets =>
    (slice? cs a b).bind fun piece => (pieces? cs (b :: offsets)).map (piece :: ·)

/-- A text that is cut where its pieces start falls into these pieces. -/
theorem pieces?_startsOf (front : List Char) (pieces : List (List Char)) :
    pieces? (front ++ pieces.flatten) (startsOf (byteLength front) pieces) = some pieces := by
  induction pieces generalizing front with
  | nil => rfl
  | cons piece pieces ih =>
    have hrest := ih (front ++ piece)
    rw [List.append_assoc, ← List.flatten_cons, byteLength_append] at hrest
    cases pieces with
    | nil =>
      have hslice : slice? (front ++ [piece].flatten) (byteLength front)
          (byteLength (front ++ [piece].flatten)) = some piece :=
        slice?_eq_some_iff.2 ⟨front, [], by simp, rfl, by simp⟩
      simp only [startsOf, pieces?, hslice, Option.map_some]
    | cons next pieces =>
      have hslice : slice? (front ++ (piece :: next :: pieces).flatten) (byteLength front)
          (byteLength front + byteLength piece) = some piece :=
        slice?_eq_some_iff.2 ⟨front, (next :: pieces).flatten, by simp, rfl,
          byteLength_append front piece⟩
      rw [startsOf] at hrest
      simp only [startsOf, pieces?, hslice, Option.bind_some, hrest, Option.map_some]

end Text

namespace LineMap

/-- The starts in a line map begin with 0 and increase up to the end of the text, and all are
boundaries.  Cut there, the text falls into its lines: each but the last one ends with a line break
and has no other, the last one has none. -/
theorem ofText_cuts_lines (cs : List Char) :
    (ofText cs).starts.toList.Pairwise (· < ·) ∧ (ofText cs).starts.toList.head? = some 0 ∧
    (∀ s ∈ (ofText cs).starts.toList, Text.isBoundary cs s = true ∧ s ≤ Text.byteLength cs) ∧
    ∃ lines, Text.pieces? cs (ofText cs).starts.toList = some lines ∧ lines.flatten = cs ∧
      ∀ before line after, lines = before ++ line :: after →
        (after = [] → BreakFree line) ∧
        (after ≠ [] → ∃ body brk, line = body ++ brk ∧ BreakFree body ∧
          IsBreak brk after.flatten) := by
  obtain ⟨lines, hlines, hoffsets⟩ := exists_lines 0 cs
  have hpieces := Text.pieces?_startsOf [] lines
  rw [List.nil_append, hlines.flatten, Text.byteLength_nil, ← hoffsets] at hpieces
  refine ⟨pairwise_breakEnds 0 cs, rfl, fun s hs => ?_, lines, hpieces, hlines.flatten,
    fun before line after => hlines.line_at⟩
  have hboundary : Text.isBoundary cs s = true := isBoundary_of_mem_starts hs
  exact ⟨hboundary, Text.le_byteLength_of_isBoundary hboundary⟩

/-- A `\r` before a `\r\n`, a line separator, and a `\r` at the end of the text. -/
theorem ofText_cuts_lines_mixed :
    let cs := ['\r', '\r', '\n', 'a', '\u2028', 'b', '\r']
    (ofText cs).starts.toList = [0, 1, 3, 7, 9] ∧
    Text.pieces? cs [0, 1, 3, 7, 9] =
      some [['\r'], ['\r', '\n'], ['a', '\u2028'], ['b', '\r'], []] ∧
    (∃ body brk, ['\r'] = body ++ brk ∧ BreakFree body ∧
      IsBreak brk ['\r', '\n', 'a', '\u2028', 'b', '\r']) ∧
    BreakFree [] := by
  intro cs
  have hstarts : (ofText cs).starts.toList = [0, 1, 3, 7, 9] := by decide
  have hcut : Text.pieces? cs [0, 1, 3, 7, 9] =
      some [['\r'], ['\r', '\n'], ['a', '\u2028'], ['b', '\r'], []] := by decide
  obtain ⟨_, _, _, lines, hpieces, _, hlines⟩ := ofText_cuts_lines cs
  rw [hstarts, hcut] at hpieces
  obtain rfl := Option.some.inj hpieces
  refine ⟨hstarts, hcut, ?_, ?_⟩
  · exact (hlines [] ['\r'] [['\r', '\n'], ['a', '\u2028'], ['b', '\r'], []] rfl).2 (by decide)
  · exact (hlines [['\r'], ['\r', '\n'], ['a', '\u2028'], ['b', '\r']] [] [] rfl).1 rfl

end LineMap

end ReturnHints
