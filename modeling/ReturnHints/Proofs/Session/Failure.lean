import ReturnHints.Proofs.Session.Record

/-!
# Calls that fail

A call that fails leaves the session as it was, except that a node turned away stays in the arena
as a lone one.  It takes a number, but not from any later node: nodes are turned away only once
the root is closed, and from then on every call fails.  So a session loses nothing if the calls
that fail are struck out of it.

    Turn s c (.error e) u → u = s, or s is closed and u has one lone node more     (Turn.of_error)
    Turn s c (.ok a) u → s is not closed                                           (Turn.of_ok)
    Trimmed s u : u is s without the nodes turned away
    s.transcript (s.kept calls) = s.successes calls                                (trimmed_after)
-/

namespace ReturnHints.Session

variable {s u v : Session} {c : Call} {calls : List Call} {err : BuildError} {a : Option NodeId}

/-! ## One call -/

/-- What a failed call can have done. -/
theorem Turn.of_error (ht : Turn s c (.error err) u) :
    err ≠ .multipleRoots ∧ u = s ∨
    err = .multipleRoots ∧ s.Closed ∧ ∃ n, s.asked? c = some n ∧ n.parent = none ∧
      n.children = [] ∧ u = { s with arena := s.arena.add n } := by
  cases ht with
  | refused _ herr => exact .inl ⟨herr, rfl⟩
  | @surplus _ n hn hclosed =>
    obtain ⟨kind, start, stop, rfl, _⟩ := exists_of_asked? hn
    exact .inr ⟨rfl, hclosed, _, hn, rfl, rfl, rfl⟩

/-- Nothing succeeds once the root is closed. -/
theorem Turn.of_ok (ht : Turn s c (.ok a) u) : ¬ s.Closed := by
  intro hclosed
  cases ht with
  | placed _ hnot => exact hnot hclosed
  | closed hopen => exact Sound.not_closed_of_open hopen hclosed
  | named hopen => exact Sound.not_closed_of_open hopen hclosed

/-- A name is looked for only if a node is open, so its token is not turned away. -/
theorem Turn.name_of_error {text : String} (ht : Turn s (.name text) (.error err) u) : u = s := by
  rcases ht.of_error with ⟨_, hu⟩ | ⟨_, hclosed, n, hn, _⟩
  · exact hu
  · rw [asked?, if_pos hclosed.1] at hn
    cases hn

/-! ## Striking out failed calls -/

/-- Whether a call has succeeded. -/
def succeeded (e : Call × Answer) : Bool := e.2.result.isOk

/-- The part of the transcript that has the calls that succeed. -/
def successes (s : Session) (calls : List Call) : List (Call × Answer) :=
  (s.transcript calls).filter succeeded

/-- The calls that succeed. -/
def kept (s : Session) (calls : List Call) : List Call := (s.successes calls).map Prod.fst

theorem successes_snoc_of_error (h : ((s.after calls).call c).1 = .error err) :
    s.successes (calls ++ [c]) = s.successes calls := by
  rw [successes, transcript_snoc, h, List.filter_append]
  show (s.transcript calls).filter succeeded ++ [] = _
  rw [List.append_nil, successes]

theorem successes_snoc_of_ok (h : ((s.after calls).call c).1 = .ok a) :
    s.successes (calls ++ [c]) =
      s.successes calls ++ [(c, ⟨.ok a, ((s.after calls).call c).2.cursor⟩)] := by
  rw [successes, transcript_snoc, h, List.filter_append]
  rfl

/-- No call that has succeeded was turned away. -/
theorem countP_turnedAway_successes (s : Session) (calls : List Call) :
    (s.successes calls).countP turnedAway = 0 := by
  rw [List.countP_eq_zero]
  intro e he haway
  obtain ⟨_, hok⟩ := List.mem_filter.1 he
  obtain ⟨c, result, cursor⟩ := e
  cases result with
  | error err => cases hok
  | ok a => cases haway

/-! ## The session without failed calls -/

/-- The session `u` is `s` without the nodes turned away. -/
structure Trimmed (s u : Session) : Prop where
  eq_except : u = { s with arena := u.arena }
  node?_eq : ∀ i, i < u.arena.size → u.arena.node? i = s.arena.node? i
  size_le : u.arena.size ≤ s.arena.size
  eq_of_not_closed : ¬ s.Closed → u = s

namespace Trimmed

protected theorem refl (s : Session) : Trimmed s s where
  eq_except := rfl
  node?_eq _ _ := rfl
  size_le := Nat.le_refl _
  eq_of_not_closed _ := rfl

/-- A failed call only adds to what is cut off. -/
theorem of_error (h : Trimmed s u) (ht : Turn s c (.error err) v) : Trimmed v u := by
  rcases ht.of_error with ⟨_, rfl⟩ | ⟨_, hclosed, n, _, _, _, rfl⟩
  · exact h
  · have hle := h.size_le
    refine ⟨h.eq_except, fun i hi => ?_, ?_, fun hnot => absurd hclosed hnot⟩
    · have hne : i ≠ s.arena.size := by omega
      show _ = (s.arena.add n).node? i
      rw [Arena.node?_add, if_neg hne]
      exact h.node?_eq i hi
    · show u.arena.size ≤ (s.arena.add n).size
      rw [Arena.size_add]
      omega

/-- The two sessions end alike, with the same file but for the nodes cut off. -/
theorem file_eq (h : Trimmed s u) :
    u.file = s.file.map fun f => { f with arena := u.arena } := by
  have hopen : u.openNodes = s.openNodes := by rw [h.eq_except]
  have hroot : u.root = s.root := by rw [h.eq_except]
  have hname : u.fileName = s.fileName := by rw [h.eq_except]
  have htext : u.text = s.text := by rw [h.eq_except]
  unfold file
  rw [hopen, hroot, hname, htext]
  split
  · rfl
  · cases s.root <;> rfl

theorem file_eq_error_iff (h : Trimmed s u) : u.file = .error err ↔ s.file = .error err := by
  rw [h.file_eq]
  cases s.file with
  | error e => exact Iff.rfl
  | ok f =>
    constructor
    · intro hf
      cases hf
    · intro hf
      cases hf

end Trimmed

/-- Without its failed calls a session gets the same answers to the others, and comes to the same
state without the nodes turned away. -/
theorem trimmed_after (s : Session) (calls : List Call) :
    s.transcript (s.kept calls) = s.successes calls ∧
      Trimmed (s.after calls) (s.after (s.kept calls)) := by
  induction calls using List.reverseRecOn with
  | nil => exact ⟨rfl, .refl s⟩
  | append_singleton calls c ih =>
    obtain ⟨hlog, htrim⟩ := ih
    have ht := turn_call (s.after calls) c
    cases hr : ((s.after calls).call c).1 with
    | error err =>
      rw [hr] at ht
      rw [kept, successes_snoc_of_error hr, after_snoc]
      exact ⟨hlog, htrim.of_error ht⟩
    | ok a =>
      rw [hr] at ht
      -- the session is not closed yet, so nothing was turned away before
      have heq : s.after (s.kept calls) = s.after calls := htrim.eq_of_not_closed ht.of_ok
      have hkept : s.kept (calls ++ [c]) = s.kept calls ++ [c] := by
        rw [kept, successes_snoc_of_ok hr, List.map_append]
        rfl
      rw [hkept, successes_snoc_of_ok hr, transcript_snoc, after_snoc, after_snoc, heq, hlog, hr]
      exact ⟨rfl, .refl _⟩

/-! ## Any session -/

/-- Failed calls leave no trace but lone nodes: after any calls, one that fails changes nothing
else, and striking out all that failed changes neither the answers to the others nor the outcome
nor any node that they have made. -/
theorem failed_calls_leave_no_trace (fileName text : String) (calls : List Call) :
    let t := begin fileName text
    let s := t.after calls
    -- one more call that fails
    (∀ c err, (s.call c).1 = .error err →
      let u := (s.call c).2
      u.cursor = s.cursor ∧ u.openNodes = s.openNodes ∧ u.root = s.root ∧
      (∀ i < s.arena.size, u.arena.node? i = s.arena.node? i) ∧
      (err ≠ .multipleRoots → u.arena.size = s.arena.size) ∧
      (err = .multipleRoots → u.arena.size = s.arena.size + 1 ∧
        ∃ n, u.arena.node? s.arena.size = some n ∧ n.parent = none ∧ n.children = []) ∧
      ∀ name, c = .name name → u = s) ∧
    -- all calls that failed
    t.transcript (t.kept calls) = (t.transcript calls).filter succeeded ∧
    (∀ err, (t.after (t.kept calls)).file = .error err ↔ s.file = .error err) ∧
    ∀ f, s.file = .ok f → ∃ f', (t.after (t.kept calls)).file = .ok f' ∧
      f'.name = f.name ∧ f'.text = f.text ∧ f'.root = f.root ∧
      f'.arena.size = (placed (t.transcript (t.kept calls))).length ∧
      ∀ i < f'.arena.size, f'.arena.node? i = f.arena.node? i := by
  intro t s
  obtain ⟨hlog, htrim⟩ := trimmed_after t calls
  refine ⟨?_, hlog, fun err => htrim.file_eq_error_iff, ?_⟩
  · intro c err herr u
    have ht : Turn s c (.error err) u := by
      rw [← herr]
      exact turn_call s c
    have hname : ∀ name, c = .name name → u = s := by
      rintro name rfl
      exact ht.name_of_error
    rcases ht.of_error with ⟨hne, hu⟩ | ⟨rfl, _, n, _, hparent, hchildren, hu⟩
    · rw [hu]
      exact ⟨rfl, rfl, rfl, fun _ _ => rfl, fun _ => rfl, fun h => absurd h hne, fun _ _ => rfl⟩
    · rw [hu] at hname ⊢
      refine ⟨rfl, rfl, rfl, fun i hi => ?_, fun h => absurd rfl h, fun _ => ⟨?_, n, ?_, ?_⟩, hname⟩
      · show (s.arena.add n).node? i = _
        rw [Arena.node?_add, if_neg (Nat.ne_of_lt hi)]
      · exact Arena.size_add s.arena n
      · show (s.arena.add n).node? s.arena.size = _
        rw [Arena.node?_add, if_pos rfl]
      · exact ⟨hparent, hchildren⟩
  · intro f hf
    have hfile : (t.after calls).file = .ok f := hf
    obtain ⟨harena, _⟩ := file_eq_ok hfile
    refine ⟨{ f with arena := (t.after (t.kept calls)).arena }, ?_, rfl, rfl, rfl, ?_, ?_⟩
    · rw [htrim.file_eq, hfile]
      rfl
    · have hsize : (t.after (t.kept calls)).arena.size = _ :=
        (recorded fileName text (t.kept calls)).size_eq
      have haway : (t.transcript (t.kept calls)).countP turnedAway = 0 := by
        rw [hlog]
        exact countP_turnedAway_successes t calls
      show (t.after (t.kept calls)).arena.size = _
      rw [hsize, haway, Nat.add_zero]
    · intro i hi
      rw [harena]
      exact htrim.node?_eq i hi

/-- Before the root a node is closed that is not there; a name is not in the text; and after the
root was closed two nodes are turned away. -/
theorem failed_calls_leave_no_trace_second_root :
    let calls : List Call := [.finish, .start .sourceFile, .name "g", .lexeme .identifier "f",
      .finish, .start .block, .setName none, .token .block 0 1]
    (begin "a.ts" "f").kept calls = [.start .sourceFile, .lexeme .identifier "f", .finish] ∧
    (((begin "a.ts" "f").after calls).call (.start .block)).1 = .error .multipleRoots ∧
    (((begin "a.ts" "f").after calls).call (.start .block)).2.arena.size =
      ((begin "a.ts" "f").after calls).arena.size + 1 ∧
    ∃ f f', ((begin "a.ts" "f").after calls).file = .ok f ∧
      ((begin "a.ts" "f").after ((begin "a.ts" "f").kept calls)).file = .ok f' ∧
      f.arena.size = 4 ∧
      f'.arena.size =
        (placed ((begin "a.ts" "f").transcript ((begin "a.ts" "f").kept calls))).length ∧
      ∀ i < f'.arena.size, f'.arena.node? i = f.arena.node? i := by
  intro calls
  have hkept : (begin "a.ts" "f").kept calls =
      [.start .sourceFile, .lexeme .identifier "f", .finish] := by decide +kernel
  have hf : ((begin "a.ts" "f").after calls).file =
      .ok ⟨"a.ts", "f", ((begin "a.ts" "f").after calls).arena, 0⟩ := by decide +kernel
  have herr : (((begin "a.ts" "f").after calls).call (.start .block)).1 =
      .error .multipleRoots := by decide +kernel
  obtain ⟨hcall, _, _, hfile⟩ := failed_calls_leave_no_trace "a.ts" "f" calls
  obtain ⟨_, _, _, _, _, hgrow, _⟩ := hcall _ _ herr
  obtain ⟨f', hf', _, _, _, hsize, hnodes⟩ := hfile _ hf
  exact ⟨hkept, herr, (hgrow rfl).1, _, f', hf, hf', by decide +kernel, hsize, hnodes⟩

end ReturnHints.Session
