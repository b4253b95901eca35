import Mathlib.Algebra.Group.Nat.Defs
import ReturnHints.Proofs.Session.Lexeme

/-!
# Tokens stand at the first occurrence of their lexeme

A lexeme is looked for in the text behind the cursor.  What is found is the least offset from the
cursor on at which the lexeme occurs, if the cursor is at a boundary at all: a token given by its
bytes may have left it within a character, or have taken it back.

    (s.locate? text).isSome ↔ the cursor is at a boundary, and text occurs from there on
                                                                            (isSome_locate?_iff)
-/

namespace ReturnHints

namespace Session

open Text (OccursAt)

variable {s u : Session} {i : NodeId} {text : String} {start stop : Nat}

/-! ## From the cursor on -/

/-- A lexeme is found if the cursor is at a boundary and the lexeme occurs from there on. -/
theorem isSome_locate?_iff (s : Session) (text : String) :
    (s.locate? text).isSome ↔ Text.isBoundary s.text.toList s.cursor = true ∧
      ∃ o, s.cursor ≤ o ∧ OccursAt text.toList s.text.toList o := by
  constructor
  · intro h
    obtain ⟨⟨start, stop⟩, hat⟩ := Option.isSome_iff_exists.1 h
    obtain ⟨⟨hoccurs, _⟩, _⟩ := isLeast_of_locate? hat
    refine ⟨?_, start, hoccurs⟩
    obtain ⟨gap, hgap, _⟩ := Option.map_eq_some_iff.1 hat
    obtain ⟨tail, htail, _⟩ := Option.bind_eq_some_iff.1 hgap
    exact Option.isSome_iff_exists.2 ⟨tail, htail⟩
  · rintro ⟨hboundary, o, hle, ho⟩
    obtain ⟨front, tail, htext, hcursor⟩ := Text.isBoundary_iff.1 hboundary
    obtain ⟨gap, rfl⟩ := Nat.exists_eq_add_of_le hle
    rw [htext, ← hcursor] at ho
    have hdrop : Text.dropBytes? s.text.toList s.cursor = some tail :=
      Text.dropBytes?_eq_some_iff.2 ⟨front, htext, hcursor⟩
    rw [locate?, hdrop, Option.bind_some, Option.isSome_map]
    cases hfind : Text.find? text.toList tail with
    | some gap' => rfl
    | none =>
      have hbehind := Text.occursAt_append_iff.1 ho
      exact absurd hbehind (Text.find?_eq_none_iff.1 hfind gap)

/-! ## The token and its text -/

/-- With a node open, a lexeme that is found gets its token. -/
theorem lexeme_of_open (hopen : s.openNodes ≠ []) (kind : Kind)
    (hat : s.locate? text = some (start, stop)) :
    s.lexeme kind text =
      (.ok s.arena.size, { s.plant { kind, start, stop } with cursor := stop }) := by
  have hclosed : ¬ s.Closed := fun h => hopen h.1
  rw [lexeme_of_locate? kind hat, token_of_not_closed kind (locate?_le hat) hclosed]

theorem Stands.after (h : s.Stands text i stop) (calls : List Call) :
    (s.after calls).Stands text i stop :=
  run_induction (P := fun _ u => u.Stands text i stop) h (fun h ht => h.turn ht) calls

theorem Stands.textOf? {f : File} (h : s.Stands text i stop) (hf : s.file = .ok f) :
    f.textOf? i = some text := by
  obtain ⟨_, tok, htok, _, hslice⟩ := h
  rw [File.textOf?, (file_eq_ok hf).1, text_file hf, htok, Option.bind_some, hslice,
    Option.map_some, String.ofList_toList]

/-- In any session with an open node, whatever calls came before, a token is placed by its lexeme if
and only if the cursor is at a boundary of the text and the lexeme occurs from the cursor on.  Then
the token starts at the first such occurrence and ends behind it, where the cursor goes, within 32
bits; and in every file that comes out after any further calls its text is the lexeme. -/
theorem lexeme_at_first_occurrence (fileName source : String) (calls : List Call) (kind : Kind)
    (text : String) (hsize : Text.byteLength source.toList < 2 ^ 32)
    (hopen : ((begin fileName source).after calls).openNodes ≠ []) :
    let s := (begin fileName source).after calls
    ((∃ i t, s.lexeme kind text = (.ok i, t)) ↔
      Text.isBoundary source.toList s.cursor = true ∧
        ∃ o, s.cursor ≤ o ∧ OccursAt text.toList source.toList o) ∧
    ∀ i t, s.lexeme kind text = (.ok i, t) → ∃ tok, t.arena.node? i = some tok ∧
      tok.kind = kind ∧
      IsLeast {o | s.cursor ≤ o ∧ OccursAt text.toList source.toList o} tok.start ∧
      tok.stop = tok.start + Text.byteLength text.toList ∧ t.cursor = tok.stop ∧
      tok.stop < 2 ^ 32 ∧
      ∀ later f, (t.after later).file = .ok f → f.textOf? i = some text := by
  intro s
  have htext : s.text = source := text_after fileName source calls
  have hlength : s.length = Text.byteLength source.toList := by rw [length, htext]
  have hlocate := isSome_locate?_iff s text
  rw [htext] at hlocate
  rw [← hlocate]
  cases hat : s.locate? text with
  | none =>
    have hfail : ∀ i t, s.lexeme kind text ≠ (.ok i, t) := by
      intro i t h
      rw [lexeme_of_locate?_none kind hat] at h
      cases h
    refine ⟨⟨?_, fun h => ?_⟩, fun i t h => absurd h (hfail i t)⟩
    · rintro ⟨i, t, h⟩
      exact absurd h (hfail i t)
    · cases h
  | some at_ =>
    obtain ⟨start, stop⟩ := at_
    have hlexeme := lexeme_of_open hopen kind hat
    refine ⟨⟨fun _ => rfl, fun _ => ⟨_, _, hlexeme⟩⟩, fun i t h => ?_⟩
    obtain ⟨hleast, hstop⟩ := isLeast_of_locate? hat
    rw [htext] at hleast
    have hle := (locate?_le hat).2
    have hturn : Turn s (.lexeme kind text) (.ok (some i)) t := by
      have ht := turn_call s (.lexeme kind text)
      rw [call, h] at ht
      exact ht
    have hstands := (hturn.stands (recorded fileName source calls).sound rfl).1
    rw [hlexeme] at h
    cases h
    obtain ⟨parent, hnode⟩ := node?_plant_self s { kind, start, stop }
    refine ⟨_, hnode, rfl, hleast, hstop, rfl, ?_, fun later f hf => ?_⟩
    · show stop < 2 ^ 32
      omega
    · exact (hstands.after later).textOf? hf

/-- The cursor was taken back over the first of two occurrences; and it was left within a character
that has two bytes. -/
theorem lexeme_at_first_occurrence_behind :
    let back : List Call := [.start .sourceFile, .token .block 6 8, .token .block 0 2]
    let within : List Call := [.start .sourceFile, .token .block 0 1]
    (∃ i t tok, ((begin "a.ts" "éaaéaa").after back).lexeme .identifier "aa" = (.ok i, t) ∧
      t.arena.node? i = some tok ∧ tok.start = 2 ∧ tok.stop = 4 ∧
      ∀ f, (t.after [.finish]).file = .ok f → f.textOf? i = some "aa") ∧
    ∀ i t, ((begin "a.ts" "éaaéaa").after within).lexeme .identifier "aa" ≠ (.ok i, t) := by
  intro back within
  have hsize : Text.byteLength "éaaéaa".toList < 2 ^ 32 := by decide
  obtain ⟨hiff, hfound⟩ := lexeme_at_first_occurrence "a.ts" "éaaéaa" back .identifier "aa" hsize
    (by decide +kernel)
  obtain ⟨hiff', _⟩ := lexeme_at_first_occurrence "a.ts" "éaaéaa" within .identifier "aa" hsize
    (by decide +kernel)
  have hcursor : ((begin "a.ts" "éaaéaa").after back).cursor = 2 := by decide +kernel
  have hoccurs : OccursAt "aa".toList "éaaéaa".toList 2 := ⟨"é".toList, "éaa".toList, rfl, rfl⟩
  constructor
  · obtain ⟨i, t, h⟩ := hiff.2 ⟨by decide +kernel, 2, Nat.le_of_eq hcursor, hoccurs⟩
    obtain ⟨tok, htok, _, ⟨⟨hle, _⟩, hleast⟩, hstop, _, _, hlater⟩ := hfound i t h
    have hstart : tok.start = 2 := by
      have := hleast ⟨Nat.le_of_eq hcursor, hoccurs⟩
      omega
    refine ⟨i, t, tok, h, htok, hstart, ?_, hlater [.finish]⟩
    rw [hstop, hstart]
    rfl
  · intro i t h
    exact absurd (hiff'.1 ⟨i, t, h⟩).1 (by decide +kernel)

end Session

end ReturnHints
