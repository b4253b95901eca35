import Mathlib.Data.List.Induction
import ReturnHints.Proofs.Text.Search
import ReturnHints.Tree.Session

/-!
# What one call of a session can do

Six calls, with a failure for each thing that can be missing, come down to five turns:

    refused   nothing to place or nothing open: the session stays as it was
    surplus   the root is closed already: the node takes a number and is left alone
    placed    a node is planted, under the innermost open node or as the root
    closed    the innermost open node is closed and takes its span from its children
    named     the innermost open node gets a name

`turn_call` says that every call takes one of them, and `run_induction` that what every turn keeps
holds after every run.  The bodies of the calls are not opened again from here on.
-/

namespace ReturnHints

/-- The kind of the node that a call places. -/
def Call.kind? : Call → Option Kind
  | .start kind => some kind
  | .token kind _ _ => some kind
  | .lexeme kind _ => some kind
  | .name _ => some .identifier
  | .finish => none
  | .setName _ => none

namespace Session

variable {s : Session} {c : Call} {n : Node}

/-! ## Where a lexeme is -/

/-- Number of bytes of the text. -/
def length (s : Session) : Nat := Text.byteLength s.text.toList

/-- The bytes of the first occurrence of a lexeme at or after the cursor. -/
def locate? (s : Session) (text : String) : Option (Nat × Nat) :=
  ((Text.dropBytes? s.text.toList s.cursor).bind (Text.find? text.toList)).map fun gap =>
    (s.cursor + gap, s.cursor + gap + Text.byteLength text.toList)

/-- A lexeme is found where it occurs first from the cursor on. -/
theorem isLeast_of_locate? {text : String} {start stop : Nat}
    (h : s.locate? text = some (start, stop)) :
    IsLeast {o | s.cursor ≤ o ∧ Text.OccursAt text.toList s.text.toList o} start ∧
      stop = start + Text.byteLength text.toList := by
  obtain ⟨gap, hgap, heq⟩ := Option.map_eq_some_iff.1 h
  obtain ⟨rfl, rfl⟩ := Prod.mk.inj heq
  obtain ⟨tail, htail, hfind⟩ := Option.bind_eq_some_iff.1 hgap
  obtain ⟨front, htext, hcursor⟩ := Text.dropBytes?_eq_some_iff.1 htail
  obtain ⟨hoccurs, hleast⟩ := Text.find?_eq_some_iff.1 hfind
  refine ⟨⟨⟨Nat.le_add_right _ _, ?_⟩, ?_⟩, rfl⟩
  · rw [htext, ← hcursor]
    exact Text.occursAt_append_iff.2 hoccurs
  · rintro o ⟨hle, ho⟩
    obtain ⟨gap', rfl⟩ := Nat.exists_eq_add_of_le hle
    rw [htext, ← hcursor] at ho
    exact Nat.add_le_add_left (hleast (Text.occursAt_append_iff.1 ho)) _

theorem locate?_le {text : String} {start stop : Nat} (h : s.locate? text = some (start, stop)) :
    start ≤ stop ∧ stop ≤ s.length := by
  obtain ⟨⟨⟨_, front, rest, htext, rfl⟩, _⟩, rfl⟩ := isLeast_of_locate? h
  refine ⟨Nat.le_add_right _ _, ?_⟩
  rw [length, htext]
  simp only [Text.byteLength_append]
  omega

theorem lexeme_of_locate? {text : String} {start stop : Nat} (kind : Kind)
    (h : s.locate? text = some (start, stop)) : s.lexeme kind text = s.token kind start stop := by
  obtain ⟨gap, hgap, heq⟩ := Option.map_eq_some_iff.1 h
  obtain ⟨rfl, rfl⟩ := Prod.mk.inj heq
  rw [lexeme, hgap]

theorem lexeme_of_locate?_none {text : String} (kind : Kind) (h : s.locate? text = none) :
    s.lexeme kind text = (.error (.lexemeNotFound text s.cursor), s) := by
  rw [lexeme, Option.map_eq_none_iff.1 h]

/-! ## Placing -/

/-- The root is there and closed: nothing can be placed any more. -/
def Closed (s : Session) : Prop := s.openNodes = [] ∧ s.root ≠ none

/-- The session with a node under the innermost open one, or as the root. -/
def plant (s : Session) (n : Node) : Session :=
  match s.openNodes with
  | p :: _ => { s with arena := ((s.arena.add n).attach? p s.arena.size).getD (s.arena.add n) }
  | [] => { s with arena := s.arena.add n, root := some s.arena.size }

theorem place_of_closed (h : s.Closed) (n : Node) :
    s.place n = (.error .multipleRoots, { s with arena := s.arena.add n }) := by
  obtain ⟨hopen, hroot⟩ := h
  obtain ⟨r, hr⟩ := Option.ne_none_iff_exists'.1 hroot
  simp [place, hopen, hr]

theorem place_of_not_closed (h : ¬ s.Closed) (n : Node) :
    s.place n = (.ok s.arena.size, s.plant n) := by
  unfold place plant
  cases hopen : s.openNodes with
  | cons p rest => rfl
  | nil =>
    have hroot : s.root = none := by
      refine Classical.byContradiction fun hroot => h ⟨hopen, hroot⟩
    simp [hroot]

@[simp] theorem openNodes_plant (s : Session) (n : Node) :
    (s.plant n).openNodes = s.openNodes := by
  unfold plant
  split <;> simp_all

@[simp] theorem text_plant (s : Session) (n : Node) : (s.plant n).text = s.text := by
  unfold plant
  split <;> rfl

/-- The node that a call asks to be placed. -/
def asked? (s : Session) : Call → Option Node
  | .start kind => some { kind, start := s.cursor, stop := s.cursor }
  | .token kind start stop =>
    if start ≤ stop ∧ stop ≤ s.length then some { kind, start, stop } else none
  | .lexeme kind text => (s.locate? text).map fun at_ => { kind, start := at_.1, stop := at_.2 }
  | .name text =>
    if s.openNodes = [] then none
    else (s.locate? text).map fun at_ => { kind := .identifier, start := at_.1, stop := at_.2 }
  | .finish => none
  | .setName _ => none

/-- What a call does beside planting node `i`, which ends at byte `stop`: a started node stays
open, a token moves the cursor behind itself, and a name is noted. -/
def settle (s : Session) (i : NodeId) (stop : Nat) : Call → Session
  | .start _ => { s with openNodes := i :: s.openNodes }
  | .name _ => ({ s with cursor := stop }.setName (some i)).2
  | _ => { s with cursor := stop }

/-- A node asked for has no links yet, and its span ends at the cursor or within the text. -/
theorem exists_of_asked? (h : s.asked? c = some n) :
    ∃ kind start stop, n = { kind, start, stop } ∧ c.kind? = some kind ∧ start ≤ stop ∧
      (stop = s.cursor ∨ stop ≤ s.length) := by
  cases c with
  | start kind =>
    obtain rfl := Option.some.inj h
    exact ⟨kind, s.cursor, s.cursor, rfl, rfl, Nat.le_refl _, .inl rfl⟩
  | finish => cases h
  | token kind start stop =>
    rw [asked?] at h
    split at h
    · next hspan =>
      obtain rfl := Option.some.inj h
      exact ⟨kind, start, stop, rfl, rfl, hspan.1, .inr hspan.2⟩
    · cases h
  | lexeme kind text =>
    obtain ⟨⟨start, stop⟩, hat, rfl⟩ := Option.map_eq_some_iff.1 h
    exact ⟨kind, start, stop, rfl, rfl, (locate?_le hat).1, .inr (locate?_le hat).2⟩
  | name text =>
    rw [asked?] at h
    split at h
    · cases h
    · obtain ⟨⟨start, stop⟩, hat, rfl⟩ := Option.map_eq_some_iff.1 h
      exact ⟨.identifier, start, stop, rfl, rfl, (locate?_le hat).1, .inr (locate?_le hat).2⟩
  | setName name => cases h

/-! ## Turns -/

/-- The arena after node `i` was closed: its span is that of its children, if it has some. -/
def fitted (a : Arena) (i : NodeId) : Arena :=
  match spanOfChildren? a i with
  | none => a
  | some (start, stop) => a.modify i fun n => { n with start, stop }

/-- What a call can do, and what it answers. -/
inductive Turn (s : Session) : Call → Except BuildError (Option NodeId) → Session → Prop
  | refused {c : Call} {e} : s.asked? c = none → e ≠ .multipleRoots → Turn s c (.error e) s
  | surplus {c : Call} {n : Node} : s.asked? c = some n → s.Closed →
      Turn s c (.error .multipleRoots) { s with arena := s.arena.add n }
  | placed {c : Call} {n : Node} : s.asked? c = some n → ¬ s.Closed →
      Turn s c (.ok (some s.arena.size)) ((s.plant n).settle s.arena.size n.stop c)
  | closed {i rest} : s.openNodes = i :: rest →
      Turn s .finish (.ok (some i)) { s with arena := fitted s.arena i, openNodes := rest }
  | named {name i rest} : s.openNodes = i :: rest →
      Turn s (.setName name) (.ok none)
        { s with arena := s.arena.modify i fun n => { n with name } }

theorem token_of_closed {start stop : Nat} (kind : Kind) (hspan : start ≤ stop ∧ stop ≤ s.length)
    (h : s.Closed) :
    s.token kind start stop =
      (.error .multipleRoots, { s with arena := s.arena.add { kind, start, stop } }) := by
  unfold length at hspan
  simp only [token, if_pos hspan, place_of_closed h]

theorem token_of_not_closed {start stop : Nat} (kind : Kind)
    (hspan : start ≤ stop ∧ stop ≤ s.length) (h : ¬ s.Closed) :
    s.token kind start stop =
      (.ok s.arena.size, { s.plant { kind, start, stop } with cursor := stop }) := by
  unfold length at hspan
  simp only [token, if_pos hspan, place_of_not_closed h]

theorem turn_start (s : Session) (kind : Kind) :
    Turn s (.start kind) (s.call (.start kind)).1 (s.call (.start kind)).2 := by
  have hn : s.asked? (.start kind) = some { kind, start := s.cursor, stop := s.cursor } := rfl
  by_cases hclosed : s.Closed
  · simp only [call, startNode, place_of_closed hclosed]
    exact .surplus hn hclosed
  · simp only [call, startNode, place_of_not_closed hclosed]
    exact .placed hn hclosed

theorem turn_token (s : Session) (kind : Kind) (start stop : Nat) :
    Turn s (.token kind start stop) (s.call (.token kind start stop)).1
      (s.call (.token kind start stop)).2 := by
  by_cases hspan : start ≤ stop ∧ stop ≤ s.length
  · have hn : s.asked? (.token kind start stop) = some { kind, start, stop } := if_pos hspan
    by_cases hclosed : s.Closed
    · simp only [call, token_of_closed kind hspan hclosed]
      exact .surplus hn hclosed
    · simp only [call, token_of_not_closed kind hspan hclosed]
      exact .placed hn hclosed
  · have hn : s.asked? (.token kind start stop) = none := if_neg hspan
    unfold length at hspan
    simp only [call, token, if_neg hspan]
    exact .refused hn (by simp)

theorem turn_lexeme (s : Session) (kind : Kind) (text : String) :
    Turn s (.lexeme kind text) (s.call (.lexeme kind text)).1 (s.call (.lexeme kind text)).2 := by
  cases hat : s.locate? text with
  | none =>
    simp only [call, lexeme_of_locate?_none kind hat]
    exact .refused (by rw [asked?, hat]; rfl) (by simp)
  | some at_ =>
    obtain ⟨start, stop⟩ := at_
    have hn : s.asked? (.lexeme kind text) = some { kind, start, stop } := by rw [asked?, hat]; rfl
    by_cases hclosed : s.Closed
    · simp only [call, lexeme_of_locate? kind hat, token_of_closed kind (locate?_le hat) hclosed]
      exact .surplus hn hclosed
    · simp only [call, lexeme_of_locate? kind hat,
        token_of_not_closed kind (locate?_le hat) hclosed]
      exact .placed hn hclosed

theorem turn_name (s : Session) (text : String) :
    Turn s (.name text) (s.call (.name text)).1 (s.call (.name text)).2 := by
  cases hopen : s.openNodes with
  | nil =>
    simp only [call, nameToken, hopen]
    exact .refused (by rw [asked?, if_pos hopen]) (by simp)
  | cons p rest =>
    have hne : s.openNodes ≠ [] := by rw [hopen]; exact List.cons_ne_nil _ _
    have hclosed : ¬ s.Closed := fun h => hne h.1
    cases hat : s.locate? text with
    | none =>
      simp only [call, nameToken, hopen, lexeme_of_locate?_none _ hat]
      exact .refused (by rw [asked?, if_neg hne, hat]; rfl) (by simp)
    | some at_ =>
      obtain ⟨start, stop⟩ := at_
      have hn : s.asked? (.name text) = some { kind := .identifier, start, stop } := by
        rw [asked?, if_neg hne, hat]
        rfl
      have hturn := Turn.placed hn hclosed
      simp only [settle, setName, openNodes_plant, hopen] at hturn
      simp only [call, nameToken, hopen, lexeme_of_locate? _ hat,
        token_of_not_closed _ (locate?_le hat) hclosed, setName, openNodes_plant]
      exact hturn

theorem turn_finish (s : Session) : Turn s .finish (s.call .finish).1 (s.call .finish).2 := by
  cases hopen : s.openNodes with
  | nil =>
    simp only [call, finishNode, hopen]
    exact .refused rfl (by simp)
  | cons i rest =>
    simp only [call, finishNode, hopen]
    exact .closed hopen

theorem turn_setName (s : Session) (name : Option NodeId) :
    Turn s (.setName name) (s.call (.setName name)).1 (s.call (.setName name)).2 := by
  cases hopen : s.openNodes with
  | nil =>
    simp only [call, setName, hopen]
    exact .refused rfl (by simp)
  | cons i rest =>
    simp only [call, setName, hopen]
    rw [← hopen]
    exact .named hopen

/-- Every call takes one of the five turns. -/
theorem turn_call (s : Session) (c : Call) : Turn s c (s.call c).1 (s.call c).2 := by
  cases c with
  | start kind => exact turn_start s kind
  | finish => exact turn_finish s
  | token kind start stop => exact turn_token s kind start stop
  | lexeme kind text => exact turn_lexeme s kind text
  | name text => exact turn_name s text
  | setName name => exact turn_setName s name

/-! ## Runs -/

/-- The session after some calls. -/
def after (s : Session) (calls : List Call) : Session := (s.run calls).2

/-- The calls with what each has answered. -/
def transcript (s : Session) (calls : List Call) : List (Call × Answer) :=
  calls.zip (s.run calls).1

theorem run_cons (s : Session) (c : Call) (calls : List Call) :
    s.run (c :: calls) =
      (⟨(s.call c).1, (s.call c).2.cursor⟩ :: ((s.call c).2.run calls).1,
        ((s.call c).2.run calls).2) := rfl

theorem length_run (s : Session) (calls : List Call) : (s.run calls).1.length = calls.length := by
  induction calls generalizing s with
  | nil => rfl
  | cons c calls ih => exact congrArg (· + 1) (ih (s.call c).2)

theorem run_snoc (s : Session) (calls : List Call) (c : Call) :
    s.run (calls ++ [c]) =
      ((s.run calls).1 ++ [⟨((s.after calls).call c).1, ((s.after calls).call c).2.cursor⟩],
        ((s.after calls).call c).2) := by
  induction calls generalizing s with
  | nil => rfl
  | cons d calls ih =>
    rw [List.cons_append, run_cons, ih]
    rfl

theorem after_snoc (s : Session) (calls : List Call) (c : Call) :
    s.after (calls ++ [c]) = ((s.after calls).call c).2 := by
  rw [after, run_snoc]

theorem transcript_snoc (s : Session) (calls : List Call) (c : Call) :
    s.transcript (calls ++ [c]) = s.transcript calls ++
      [(c, ⟨((s.after calls).call c).1, ((s.after calls).call c).2.cursor⟩)] := by
  rw [transcript, run_snoc, List.zip_append (length_run s calls).symm]
  rfl

/-- What holds at first and is kept by every turn holds after every run. -/
theorem run_induction {P : List (Call × Answer) → Session → Prop} {s : Session} (hs : P [] s)
    (hturn : ∀ {log t c r u}, P log t → Turn t c r u → P (log ++ [(c, ⟨r, u.cursor⟩)]) u)
    (calls : List Call) : P (s.transcript calls) (s.after calls) := by
  induction calls using List.reverseRecOn with
  | nil => exact hs
  | append_singleton calls c ih =>
    rw [transcript_snoc, after_snoc]
    exact hturn ih (turn_call _ c)

end Session

end ReturnHints
