import Mathlib.Data.List.Pairwise
import ReturnHints.Proofs.LineMap
import ReturnHints.Proofs.Session.Record

/-!
# Tokens that were searched for

A node that is not open is never changed again, whatever calls follow.  So a token that was placed
by its lexeme keeps the bytes where the lexeme was found, and as long as no call gives the bytes of
its token itself, the cursor never moves back and tokens stand behind each other.

    Turn s c r u → a closed node of s is the same closed node in u           (Turn.keeps)
    the token of a lexeme covers it, and ends where the cursor stood then    (stands_transcript)
    e before e' in the transcript → e' ends a lexeme further at least        (pairwise_transcript)
-/

namespace ReturnHints

/-- The text that a call looks for. -/
def Call.sought? : Call → Option String
  | .lexeme _ text => some text
  | .name text => some text
  | .start _ | .finish | .token _ _ _ | .setName _ => none

/-- Whether a call gives the bytes of its token itself. -/
def Call.hasSpan : Call → Bool
  | .token _ _ _ => true
  | .start _ | .finish | .lexeme _ _ | .name _ | .setName _ => false

namespace Session

variable {s u : Session} {c : Call} {r : Except BuildError (Option NodeId)} {n : Node}
  {i k : Nat} {text : String}

/-! ## Closed nodes -/

theorem node?_plant_self (s : Session) (n : Node) :
    ∃ parent, (s.plant n).arena.node? s.arena.size = some { n with parent } := by
  rcases arena_plant_cases s n with h | ⟨p, h⟩
  · refine ⟨n.parent, ?_⟩
    rw [h, Arena.node?_add, if_pos rfl]
  · refine ⟨some p, ?_⟩
    rw [Arena.node?_attach? h, Arena.node?_add, if_pos rfl]
    simp [Arena.ne_of_attach? h]

/-- Planting changes no node but the innermost open one. -/
theorem node?_plant_of_ne (n : Node) (hlt : i < s.arena.size) (hi : s.openNodes.head? ≠ some i) :
    (s.plant n).arena.node? i = s.arena.node? i := by
  have hne : i ≠ s.arena.size := Nat.ne_of_lt hlt
  unfold plant
  split
  · next p rest hopen =>
    have hp : i ≠ p := by
      rintro rfl
      exact hi (by rw [hopen]; rfl)
    cases hb : (s.arena.add n).attach? p s.arena.size with
    | none =>
      show (s.arena.add n).node? i = _
      rw [Arena.node?_add, if_neg hne]
    | some b =>
      show b.node? i = _
      rw [Arena.node?_attach? hb, Arena.node?_add, if_neg hne]
      simp [hne, hp]
  · show (s.arena.add n).node? i = _
    rw [Arena.node?_add, if_neg hne]

theorem node?_settle (s : Session) (j : NodeId) (stop : Nat) (c : Call) (hi : i ∉ s.openNodes) :
    (s.settle j stop c).arena.node? i = s.arena.node? i := by
  cases c with
  | name text =>
    unfold settle setName
    cases hopen : s.openNodes with
    | nil => simp
    | cons p rest =>
      have hp : p ≠ i := by
        rintro rfl
        exact hi (by rw [hopen]; exact List.mem_cons_self)
      simp [Arena.node?_modify, hp]
  | _ => rfl

theorem node?_fitted (a : Arena) {j : NodeId} (h : j ≠ i) :
    (fitted a j).node? i = a.node? i := by
  unfold fitted
  split
  · rfl
  · rw [Arena.node?_modify, if_neg h]

theorem fitted_of_nil {a : Arena} (h : a.children i = []) : fitted a i = a := by
  simp [fitted, spanOfChildren?, h]

theorem node?_fitted_of_span {a : Arena} {start stop : Nat} (hn : a.node? i = some n)
    (hspan : spanOfChildren? a i = some (start, stop)) :
    (fitted a i).node? i = some { n with start, stop } := by
  unfold fitted
  rw [hspan]
  show (a.modify i _).node? i = _
  rw [Arena.node?_modify, if_pos rfl, hn]
  rfl

theorem openNodes_settle_subset (s : Session) (j : NodeId) (stop : Nat) (c : Call) :
    ∀ p ∈ (s.settle j stop c).openNodes, p = j ∨ p ∈ s.openNodes := by
  intro p hp
  rcases settle_cases s j stop c with ⟨_, _, h⟩ | ⟨_, _, _, _, h⟩
  · rw [h] at hp
    exact List.mem_cons.1 hp
  · rw [h] at hp
    exact .inr hp

/-- A closed node stays as it is. -/
theorem Turn.keeps (ht : Turn s c r u) (hn : s.arena.node? i = some n) (hi : i ∉ s.openNodes) :
    u.arena.node? i = some n ∧ i ∉ u.openNodes := by
  have hlt := Arena.lt_size_of_node? hn
  cases ht with
  | refused => exact ⟨hn, hi⟩
  | surplus =>
    refine ⟨?_, hi⟩
    show (s.arena.add _).node? i = _
    rw [Arena.node?_add, if_neg (Nat.ne_of_lt hlt), hn]
  | @placed _ m =>
    have hi' : i ∉ (s.plant m).openNodes := by rwa [openNodes_plant]
    rw [node?_settle _ _ _ _ hi', node?_plant_of_ne m hlt fun h => hi (List.mem_of_head? h)]
    refine ⟨hn, fun hmem => ?_⟩
    rcases openNodes_settle_subset _ _ _ _ i hmem with heq | hmem
    · exact Nat.ne_of_lt hlt heq
    · exact hi' hmem
  | @closed j rest hopen =>
    rw [hopen, List.mem_cons, not_or] at hi
    refine ⟨?_, hi.2⟩
    show (fitted s.arena j).node? i = _
    rw [node?_fitted _ (Ne.symm hi.1), hn]
  | @named name j rest hopen =>
    have hj : j ≠ i := by
      rintro rfl
      exact hi (by rw [hopen]; exact List.mem_cons_self)
    refine ⟨?_, hi⟩
    show (s.arena.modify j _).node? i = _
    rw [Arena.node?_modify, if_neg hj, hn]

/-! ## Where a lexeme is found -/

theorem slice?_of_locate? {start stop : Nat} (h : s.locate? text = some (start, stop)) :
    s.cursor ≤ start ∧ Text.slice? s.text.toList start stop = some text.toList := by
  obtain ⟨⟨⟨hcursor, front, rest, htext, rfl⟩, _⟩, rfl⟩ := isLeast_of_locate? h
  refine ⟨hcursor, Text.slice?_eq_some_iff.2 ⟨front, rest, htext, rfl, ?_⟩⟩
  rw [Text.byteLength_append]

/-- A call that looks for a text asks for a token over the bytes where it was found. -/
theorem exists_of_sought? (hn : s.asked? c = some n) (hc : c.sought? = some text) :
    ∃ kind start stop, n = { kind, start, stop } ∧ s.locate? text = some (start, stop) := by
  cases c with
  | lexeme kind text' =>
    obtain rfl := Option.some.inj hc
    obtain ⟨⟨start, stop⟩, hat, rfl⟩ := Option.map_eq_some_iff.1 hn
    exact ⟨kind, start, stop, rfl, hat⟩
  | name text' =>
    obtain rfl := Option.some.inj hc
    rw [asked?] at hn
    split at hn
    · cases hn
    · obtain ⟨⟨start, stop⟩, hat, rfl⟩ := Option.map_eq_some_iff.1 hn
      exact ⟨.identifier, start, stop, rfl, hat⟩
  | _ => cases hc

theorem cursor_settle (s : Session) (j : NodeId) (stop : Nat) (hc : c.sought? = some text) :
    (s.settle j stop c).cursor = stop ∧ (s.settle j stop c).openNodes = s.openNodes := by
  rcases settle_cases s j stop c with ⟨kind, rfl, _⟩ | ⟨_, _, _, _, h⟩
  · cases hc
  · rw [h]
    exact ⟨rfl, rfl⟩

/-! ## Tokens stay where they were found -/

/-- Node `i` is closed and covers the text, up to the byte `stop`. -/
def Stands (s : Session) (text : String) (i : NodeId) (stop : Nat) : Prop :=
  i ∉ s.openNodes ∧ ∃ tok, s.arena.node? i = some tok ∧ tok.stop = stop ∧
    Text.slice? s.text.toList tok.start tok.stop = some text.toList

theorem Stands.turn {stop : Nat} (h : s.Stands text i stop) (ht : Turn s c r u) :
    u.Stands text i stop := by
  obtain ⟨hi, tok, htok, hstop, hslice⟩ := h
  obtain ⟨htok', hi'⟩ := ht.keeps htok hi
  exact ⟨hi', tok, htok', hstop, by rw [ht.text_eq]; exact hslice⟩

/-- A text that was looked for and found is covered by the new token. -/
theorem Turn.stands (ht : Turn s c (.ok (some i)) u) (h : s.Sound k) (hc : c.sought? = some text) :
    u.Stands text i u.cursor ∧ s.cursor + Text.byteLength text.toList ≤ u.cursor := by
  cases ht with
  | @placed _ n hn hclosed =>
    obtain ⟨kind, start, stop, rfl, hat⟩ := exists_of_sought? hn hc
    obtain ⟨hle, hslice⟩ := slice?_of_locate? hat
    obtain ⟨hcursor, hopen⟩ := cursor_settle (s.plant { kind, start, stop }) s.arena.size stop hc
    obtain ⟨parent, hnode⟩ := node?_plant_self s { kind, start, stop }
    have hfresh : s.arena.size ∉ (s.plant { kind, start, stop }).openNodes := by
      rw [openNodes_plant]
      intro hmem
      have hlt := h.open_lt _ hmem
      rw [h.size_eq hclosed] at hlt
      exact Nat.lt_irrefl k hlt
    refine ⟨⟨by rw [hopen]; exact hfresh, { kind, start, stop, parent }, ?_, hcursor.symm, ?_⟩, ?_⟩
    · rw [node?_settle _ _ _ _ hfresh, hnode]
    · rw [(Turn.placed hn hclosed).text_eq]
      exact hslice
    · obtain ⟨front, rest, _, hfront, hstop⟩ := Text.slice?_eq_some_iff.1 hslice
      rw [Text.byteLength_append] at hstop
      rw [hcursor]
      omega
  | closed => cases hc

/-- Every text that was looked for and found is covered by its token. -/
theorem stands_transcript (fileName source : String) (calls : List Call) :
    ∀ e ∈ (begin fileName source).transcript calls, ∀ text i, e.1.sought? = some text →
      e.2.result = .ok (some i) →
      ((begin fileName source).after calls).Stands text i e.2.cursor := by
  have h := run_induction (s := begin fileName source)
    (P := fun log t => Recorded log t ∧ ∀ e ∈ log, ∀ text i, e.1.sought? = some text →
      e.2.result = .ok (some i) → t.Stands text i e.2.cursor)
    ⟨.begin fileName source, fun e he => absurd he List.not_mem_nil⟩ ?_ calls
  · exact h.2
  · intro log t c r u ⟨hrec, hstands⟩ ht
    refine ⟨hrec.turn ht, fun e he text i hc hr => ?_⟩
    rcases List.mem_append.1 he with he | he
    · exact (hstands e he text i hc hr).turn ht
    · rw [List.mem_singleton.1 he] at hc hr ⊢
      cases hr
      exact (ht.stands hrec.sound hc).1

/-! ## The cursor only moves on -/

@[simp] theorem cursor_plant (s : Session) (n : Node) : (s.plant n).cursor = s.cursor := by
  unfold plant
  split <;> rfl

theorem Turn.cursor_le (ht : Turn s c r u) (hc : c.hasSpan = false) : s.cursor ≤ u.cursor := by
  cases ht with
  | @placed _ n hn _ =>
    cases hs : c.sought? with
    | some text =>
      obtain ⟨kind, start, stop, rfl, hat⟩ := exists_of_sought? hn hs
      rw [(cursor_settle _ _ _ hs).1]
      exact Nat.le_trans (slice?_of_locate? hat).1 (locate?_le hat).1
    | none =>
      cases c with
      | start kind => exact Nat.le_of_eq (cursor_plant s n).symm
      | token kind start stop => cases hc
      | lexeme kind text => cases hs
      | name text => cases hs
      | finish => cases hn
      | setName name => cases hn
  | _ => exact Nat.le_refl _

/-- Without calls that give the bytes of their tokens, a text that was found ends behind all
that was placed before, by its own length at least. -/
theorem pairwise_transcript (fileName source : String) (calls : List Call)
    (hcalls : ∀ c ∈ calls, c.hasSpan = false) :
    ((begin fileName source).transcript calls).Pairwise fun e e' =>
      ∀ text i, e'.1.sought? = some text → e'.2.result = .ok (some i) →
        e.2.cursor + Text.byteLength text.toList ≤ e'.2.cursor := by
  have hlog : ∀ e ∈ (begin fileName source).transcript calls, e.1.hasSpan = false :=
    fun e he => hcalls e.1 (List.of_mem_zip he).1
  have h := run_induction (s := begin fileName source)
    (P := fun log t => Recorded log t ∧ ((∀ e ∈ log, e.1.hasSpan = false) →
      (∀ e ∈ log, e.2.cursor ≤ t.cursor) ∧ log.Pairwise fun e e' =>
        ∀ text i, e'.1.sought? = some text → e'.2.result = .ok (some i) →
          e.2.cursor + Text.byteLength text.toList ≤ e'.2.cursor))
    ⟨.begin fileName source, fun _ => ⟨fun e he => absurd he List.not_mem_nil, .nil⟩⟩ ?_ calls
  · exact (h.2 hlog).2
  · intro log t c r u ⟨hrec, hpast⟩ ht
    refine ⟨hrec.turn ht, fun hspan => ?_⟩
    obtain ⟨hle, hpair⟩ := hpast fun e he => hspan e (List.mem_append_left _ he)
    have hmono := ht.cursor_le (hspan (c, ⟨r, u.cursor⟩) (by simp))
    constructor
    · intro e he
      rcases List.mem_append.1 he with he | he
      · exact Nat.le_trans (hle e he) hmono
      · rw [List.mem_singleton.1 he]
    · refine List.pairwise_append.2 ⟨hpair, List.pairwise_singleton _ _, ?_⟩
      intro e he e' he' text i hc hr
      rw [List.mem_singleton.1 he'] at hc hr ⊢
      cases hr
      exact Nat.le_trans (Nat.add_le_add_right (hle e he) _) (ht.stands hrec.sound hc).2

/-- The call has found a text that is not empty. -/
def Finds (e : Call × Answer) : Prop :=
  ∃ text i, text ≠ "" ∧ e.1.sought? = some text ∧ e.2.result = .ok (some i)

/-- Two texts found by different calls do not end at the same byte. -/
theorem cursor_ne_of_finds {fileName source : String} {calls : List Call} {e e' : Call × Answer}
    (hcalls : ∀ c ∈ calls, c.hasSpan = false)
    (he : e ∈ (begin fileName source).transcript calls)
    (he' : e' ∈ (begin fileName source).transcript calls) (hne : e ≠ e')
    (hfinds : Finds e) (hfinds' : Finds e') : e.2.cursor ≠ e'.2.cursor := by
  have hpair : ((begin fileName source).transcript calls).Pairwise fun e e' =>
      Finds e → Finds e' → e.2.cursor ≠ e'.2.cursor := by
    refine (pairwise_transcript fileName source calls hcalls).imp ?_
    intro d d' hbehind _ ⟨text, i, htext, hc, hr⟩
    have hle := hbehind text i hc hr
    have hpos := Text.byteLength_pos (mt String.toList_eq_nil_iff.1 htext)
    omega
  have hsymm : Std.Symm fun e e' : Call × Answer =>
      Finds e → Finds e' → e.2.cursor ≠ e'.2.cursor :=
    ⟨fun _ _ h hd' hd => (h hd hd').symm⟩
  exact hpair.forall he he' hne hfinds hfinds'

end Session

end ReturnHints
