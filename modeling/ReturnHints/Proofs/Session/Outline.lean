import Mathlib.Data.List.Forall2
import ReturnHints.Proofs.Session.Lexeme

/-!
# Building a given tree

An outline is a tree of kinds with a lexeme at every leaf.  Its text is made of its lexemes, and
the session that goes through it opens and closes its nodes and looks for its lexemes.  Since each
lexeme stands right at the cursor, nothing is skipped, and the file that comes out shows the
outline again:

    Depicts f i t     node i of f and all below it have the kinds, the order and the texts of t
    (begin name t.text).after t.calls gives a file f with f.Depicts f.root t        (file_outline)

An outline is built under whatever is open (`Built`): pieces built one after the other stand side
by side, and closing a node turns the pieces under it into one.
-/

namespace ReturnHints

/-! ## Outlines -/

inductive Outline
  | token (kind : Kind) (lexeme : String)
  | node (kind : Kind) (children : List Outline)

namespace Outline

mutual

/-- The lexemes from left to right. -/
def text : Outline → String
  | token _ lexeme => lexeme
  | node _ children => textAll children

def textAll : List Outline → String
  | [] => ""
  | t :: ts => t.text ++ textAll ts

end

mutual

/-- The calls that build the outline. -/
def calls : Outline → List Call
  | token kind lexeme => [.lexeme kind lexeme]
  | node kind children => .start kind :: (callsAll children ++ [.finish])

def callsAll : List Outline → List Call
  | [] => []
  | t :: ts => t.calls ++ callsAll ts

end

end Outline

/-! ## Reading a file back -/

/-- Node `i` and all below it are the outline: kinds and children are the same, and the text of
every node is made of the lexemes below it. -/
inductive File.Depicts (f : File) : NodeId → Outline → Prop
  | token {i kind lexeme} : f.arena.kind? i = some kind → f.arena.children i = [] →
      f.textOf? i = some lexeme → f.Depicts i (.token kind lexeme)
  | node {i kind ts} : f.arena.kind? i = some kind →
      List.Forall₂ (fun c t => f.Depicts c t) (f.arena.children i) ts →
      f.textOf? i = some (Outline.textAll ts) → f.Depicts i (.node kind ts)

theorem File.Depicts.textOf?_eq {f : File} {i : NodeId} {t : Outline} (h : f.Depicts i t) :
    f.textOf? i = some t.text := by
  cases h with
  | token _ _ ht => exact ht
  | node _ _ ht => exact ht

/-- The same text, and the same nodes from `lo` on; children have larger numbers. -/
structure File.SameFrom (lo : Nat) (v w : File) : Prop where
  text : w.text = v.text
  node? : ∀ j : Nat, lo ≤ j → j < v.arena.size → w.arena.node? j = v.arena.node? j
  child_gt : ∀ {c p : Nat}, v.arena.IsChild c p → p < c

namespace File.SameFrom

variable {v w : File} {lo : Nat}

mutual

/-- What stands from `lo` on decides what is depicted there. -/
theorem depicts (h : SameFrom lo v w) :
    ∀ (t : Outline) (i : Nat), v.Depicts i t → lo ≤ i → w.Depicts i t
  | .token kind lexeme, i, .token hk hc ht, hi => by
    have hnode := h.node? i hi (Arena.lt_size_of_kind? hk)
    refine .token ?_ ?_ ?_
    · rw [Arena.kind?, hnode]
      exact hk
    · rw [Arena.children, hnode]
      exact hc
    · rw [File.textOf?, hnode, h.text]
      exact ht
  | .node kind ts, i, .node hk hc ht, hi => by
    have hnode := h.node? i hi (Arena.lt_size_of_kind? hk)
    refine .node ?_ ?_ ?_
    · rw [Arena.kind?, hnode]
      exact hk
    · have hchildren : w.arena.children i = v.arena.children i := by
        rw [Arena.children, hnode, Arena.children]
      rw [hchildren]
      exact h.depictsAll ts _ hc fun c hmem => Nat.le_trans hi (Nat.le_of_lt (h.child_gt hmem))
    · rw [File.textOf?, hnode, h.text]
      exact ht

theorem depictsAll (h : SameFrom lo v w) :
    ∀ (ts : List Outline) (is : List Nat), List.Forall₂ (fun c t => v.Depicts c t) is ts →
      (∀ i ∈ is, lo ≤ i) → List.Forall₂ (fun c t => w.Depicts c t) is ts
  | [], _, .nil, _ => .nil
  | t :: ts, _, .cons (a := i) hd hds, hlo =>
    .cons (h.depicts t i hd (hlo i List.mem_cons_self))
      (h.depictsAll ts _ hds fun j hj => hlo j (List.mem_cons_of_mem _ hj))

end

end File.SameFrom

/-! ## Nodes side by side -/

/-- The nodes stand side by side from byte `x` to byte `y`. -/
def Arena.Covers (a : Arena) : List NodeId → Nat → Nat → Prop
  | [], x, y => x = y
  | i :: is, x, y => ∃ n, a.node? i = some n ∧ n.start = x ∧ a.Covers is n.stop y

namespace Arena.Covers

variable {a b : Arena} {is js : List NodeId} {x y z : Nat}

protected theorem append (h : a.Covers is x y) (h' : a.Covers js y z) :
    a.Covers (is ++ js) x z := by
  induction is generalizing x with
  | nil =>
    obtain rfl : x = y := h
    exact h'
  | cons i is ih =>
    obtain ⟨n, hn, hx, hrest⟩ := h
    exact ⟨n, hn, hx, ih hrest⟩

protected theorem congr (h : a.Covers is x y)
    (hsame : ∀ i ∈ is, i < a.size → b.node? i = a.node? i) : b.Covers is x y := by
  induction is generalizing x with
  | nil => exact h
  | cons i is ih =>
    obtain ⟨n, hn, hx, hrest⟩ := h
    refine ⟨n, ?_, hx, ih hrest fun j hj => hsame j (List.mem_cons_of_mem i hj)⟩
    exact (hsame i List.mem_cons_self (lt_size_of_node? hn)).trans hn

/-- The last of the nodes ends where they all end. -/
theorem exists_last (h : a.Covers is x y) (hne : is ≠ []) :
    ∃ last n, is.getLast? = some last ∧ a.node? last = some n ∧ n.stop = y := by
  induction is generalizing x with
  | nil => exact absurd rfl hne
  | cons i is ih =>
    obtain ⟨n, hn, _, hrest⟩ := h
    cases is with
    | nil => exact ⟨i, n, rfl, hn, hrest⟩
    | cons j js =>
      obtain ⟨last, m, hlast, hm, hy⟩ := ih hrest (List.cons_ne_nil j js)
      exact ⟨last, m, by rw [List.getLast?_cons_cons, hlast], hm, hy⟩

/-- A node takes its span from children that stand side by side. -/
theorem spanOfChildren? {i : NodeId} (h : a.Covers (a.children i) x y) (hne : a.children i ≠ []) :
    Session.spanOfChildren? a i = some (x, y) := by
  obtain ⟨last, m, hlast, hm, rfl⟩ := h.exists_last hne
  cases hc : a.children i with
  | nil => exact absurd hc hne
  | cons first rest =>
    rw [hc] at h
    obtain ⟨n, hn, rfl, _⟩ := h
    rw [hc] at hlast
    simp [Session.spanOfChildren?, hc, hlast, hn, hm]

end Arena.Covers

theorem Outline.textAll_append (ts ts' : List Outline) :
    textAll (ts ++ ts') = textAll ts ++ textAll ts' := by
  induction ts with
  | nil => simp [textAll]
  | cons t ts ih => simp [textAll, ih, String.append_assoc]

/-! ## Building -/

namespace Session

variable {s t u : Session} {c : Call} {n : Node} {i k : Nat}

theorem after_append (s : Session) (xs ys : List Call) :
    s.after (xs ++ ys) = (s.after xs).after ys := by
  induction xs generalizing s with
  | nil => rfl
  | cons c xs ih => exact ih (s.call c).2

theorem transcript_append (s : Session) (xs ys : List Call) :
    s.transcript (xs ++ ys) = s.transcript xs ++ (s.after xs).transcript ys := by
  induction xs generalizing s with
  | nil => rfl
  | cons c xs ih => exact congrArg (_ :: ·) (ih (s.call c).2)

/-- Every call is answered with a node. -/
def Succeeds (s : Session) (calls : List Call) : Prop :=
  ∀ e ∈ s.transcript calls, ∃ i, e.2.result = .ok (some i)

theorem Succeeds.append {xs ys : List Call} (h : s.Succeeds xs) (h' : (s.after xs).Succeeds ys) :
    s.Succeeds (xs ++ ys) := by
  intro e he
  rw [transcript_append] at he
  rcases List.mem_append.1 he with he | he
  · exact h e he
  · exact h' e he

theorem Succeeds.single (h : (s.call c).1 = .ok (some i)) : s.Succeeds [c] := by
  intro e he
  rw [List.mem_singleton.1 (show e ∈ [(c, _)] from he)]
  exact ⟨i, h⟩

/-- A node that is asked for is placed, unless the root is closed. -/
theorem call_of_asked? (hn : s.asked? c = some n) (hclosed : ¬ s.Closed) :
    s.call c = (.ok (some s.arena.size), (s.plant n).settle s.arena.size n.stop c) := by
  have ht := turn_call s c
  generalize s.call c = answer at ht ⊢
  obtain ⟨r, u⟩ := answer
  cases ht with
  | refused hnone => rw [hn] at hnone; cases hnone
  | surplus _ hc => exact absurd hc hclosed
  | placed hn' => rw [hn] at hn'; cases hn'; rfl
  | closed => cases hn
  | named => cases hn

theorem call_finish {rest : List NodeId} (hopen : s.openNodes = i :: rest) :
    s.call .finish =
      (.ok (some i), { s with arena := fitted s.arena i, openNodes := rest }) := by
  simp only [call, finishNode, hopen]
  rfl

/-- A lexeme right at the cursor is found there. -/
theorem locate?_of_append {lexeme : String} {front rest : List Char}
    (htext : s.text.toList = front ++ lexeme.toList ++ rest)
    (hcursor : s.cursor = Text.byteLength front) :
    s.locate? lexeme = some (s.cursor, s.cursor + Text.byteLength lexeme.toList) := by
  rw [locate?, htext, hcursor, List.append_assoc, Text.dropBytes?_append, Option.bind_some,
    Text.find?_append]
  rfl

@[simp] theorem fileName_plant (s : Session) (n : Node) : (s.plant n).fileName = s.fileName := by
  unfold plant
  split <;> rfl

/-- Planting adds a child to the innermost open node and changes nothing else. -/
theorem kept_plant (h : s.Sound k) (hparent : n.parent = none) (hchildren : n.children = []) :
    ∀ i < s.arena.size, (s.plant n).arena.node? i = (s.arena.node? i).map fun m =>
      if s.openNodes.head? = some i then { m with children := m.children ++ [s.arena.size] }
      else m := by
  intro i hi
  by_cases hhead : s.openNodes.head? = some i
  · obtain ⟨rest, hopen⟩ := List.head?_eq_some_iff.1 hhead
    obtain ⟨b, hb⟩ := h.exists_attach hopen hparent hchildren
    have hne : i ≠ s.arena.size := Nat.ne_of_lt hi
    rw [Sound.plant_of_open hopen hb]
    show b.node? i = _
    rw [Arena.node?_attach? hb, Arena.node?_add, if_neg hne]
    simp [hne, hhead]
  · rw [node?_plant_of_ne n hi hhead]
    simp [hhead]

/-! ## Pieces of an outline -/

/-- The session as a file, whether it is complete or not. -/
def view (s : Session) : File := { name := s.fileName, text := s.text, arena := s.arena, root := 0 }

/-- From `s` to `u`, the nodes `is` were built under the innermost open node.  They depict the
outlines and stand side by side over the bytes that the cursor has passed. -/
structure Built (s u : Session) (ts : List Outline) (is : List NodeId) : Prop where
  sound : ∃ k, u.Sound k
  text_eq : u.text = s.text
  fileName_eq : u.fileName = s.fileName
  openNodes_eq : u.openNodes = s.openNodes
  cursor_eq : u.cursor = s.cursor + Text.byteLength (Outline.textAll ts).toList
  size_le : s.arena.size ≤ u.arena.size
  kept : ∀ i < s.arena.size, u.arena.node? i = (s.arena.node? i).map fun n =>
    if s.openNodes.head? = some i then { n with children := n.children ++ is } else n
  fresh : ∀ i ∈ is, s.arena.size ≤ i
  depicts : List.Forall₂ u.view.Depicts is ts
  covers : u.arena.Covers is s.cursor u.cursor

namespace Built

variable {ts ts' : List Outline} {is is' : List NodeId}

protected theorem nil (h : s.Sound k) : Built s s [] [] where
  sound := ⟨k, h⟩
  text_eq := rfl
  fileName_eq := rfl
  openNodes_eq := rfl
  cursor_eq := rfl
  size_le := Nat.le_refl _
  kept i _ := by simp
  fresh _ h := absurd h List.not_mem_nil
  depicts := .nil
  covers := rfl

/-- What was built before stays as it is. -/
theorem node?_of_fresh (hs : s.Sound k) (hst : Built s t ts is) (htu : Built t u ts' is')
    (hlo : s.arena.size ≤ i) (hi : i < t.arena.size) : u.arena.node? i = t.arena.node? i := by
  have hhead : t.openNodes.head? ≠ some i := by
    rw [hst.openNodes_eq]
    intro hhead
    have hlt : i < k := hs.open_lt i (List.mem_of_head? hhead)
    have hle := hs.numbered.le_size
    omega
  rw [htu.kept i hi]
  simp [hhead]

/-- Pieces built one after the other stand side by side. -/
protected theorem append (hs : s.Sound k) (hst : Built s t ts is) (htu : Built t u ts' is') :
    Built s u (ts ++ ts') (is ++ is') where
  sound := htu.sound
  text_eq := htu.text_eq.trans hst.text_eq
  fileName_eq := htu.fileName_eq.trans hst.fileName_eq
  openNodes_eq := htu.openNodes_eq.trans hst.openNodes_eq
  cursor_eq := by
    rw [htu.cursor_eq, hst.cursor_eq, Outline.textAll_append, String.toList_append,
      Text.byteLength_append]
    omega
  size_le := Nat.le_trans hst.size_le htu.size_le
  kept i hi := by
    rw [htu.kept i (Nat.lt_of_lt_of_le hi hst.size_le), hst.kept i hi, hst.openNodes_eq]
    by_cases hhead : s.openNodes.head? = some i
    · simp [hhead, Function.comp_def]
    · simp [hhead]
  fresh i hi := by
    rcases List.mem_append.1 hi with hi | hi
    · exact hst.fresh i hi
    · exact Nat.le_trans hst.size_le (htu.fresh i hi)
  depicts := by
    obtain ⟨k', ht⟩ := hst.sound
    have hsame : File.SameFrom s.arena.size t.view u.view :=
      ⟨htu.text_eq, fun j hlo hj => node?_of_fresh hs hst htu hlo hj,
        fun hc => ht.numbered.parent_lt (ht.numbered.isChild_iff.1 hc)⟩
    exact List.rel_append (hsame.depictsAll ts is hst.depicts hst.fresh) htu.depicts
  covers := (hst.covers.congr fun i hi hlt =>
    node?_of_fresh hs hst htu (hst.fresh i hi) hlt).append htu.covers

/-- A token built from its lexeme at the cursor. -/
theorem token (h : s.Sound k) (hclosed : ¬ s.Closed) (kind : Kind) {lexeme : String}
    {front rest : List Char} (htext : s.text.toList = front ++ lexeme.toList ++ rest)
    (hcursor : s.cursor = Text.byteLength front) :
    s.Succeeds [.lexeme kind lexeme] ∧
      Built s (s.after [.lexeme kind lexeme]) [.token kind lexeme] [s.arena.size] := by
  have hat := locate?_of_append htext hcursor
  let n : Node := { kind, start := s.cursor, stop := s.cursor + Text.byteLength lexeme.toList }
  have hn : s.asked? (.lexeme kind lexeme) = some n := by
    rw [asked?, hat]
    rfl
  have hcall := call_of_asked? hn hclosed
  refine ⟨.single (congrArg Prod.fst hcall), ?_⟩
  have hu : s.after [.lexeme kind lexeme] = { s.plant n with cursor := n.stop } :=
    congrArg Prod.snd hcall
  have hsound : ({ s.plant n with cursor := n.stop } : Session).Sound (k + 1) := h.place hn hclosed
  obtain ⟨parent, hnode⟩ := node?_plant_self s n
  rw [hu]
  refine ⟨⟨k + 1, hsound⟩, text_plant s n, fileName_plant s n, openNodes_plant s n, ?_, ?_,
    kept_plant h rfl rfl, ?_, ?_, ?_⟩
  · simp [n, Outline.textAll, Outline.text]
  · show s.arena.size ≤ (s.plant n).arena.size
    rw [size_plant]
    exact Nat.le_succ _
  · intro i hi
    rw [List.mem_singleton.1 hi]
  · refine .cons (.token ?_ ?_ ?_) .nil
    · show (s.plant n).arena.kind? _ = _
      rw [kind?_plant, if_pos rfl]
    · show (s.plant n).arena.children _ = _
      rw [Arena.children, hnode]
      rfl
    · have hslice : Text.slice? s.text.toList n.start n.stop = some lexeme.toList :=
        (slice?_of_locate? hat).2
      show ((s.plant n).arena.node? s.arena.size).bind _ = _
      rw [hnode]
      simp [view, n, hslice]
  · exact ⟨_, hnode, rfl, rfl⟩

end Built

/-- A closed node takes the span of children that stand side by side; one without children has
an empty span already. -/
theorem node?_fitted_self {a : Arena} {x y : Nat} (hnode : a.node? i = some n)
    (hcovers : a.Covers n.children x y) (hstart : n.start = x) (hstop : n.stop = x) :
    (fitted a i).node? i = some { n with start := x, stop := y } := by
  have hchildren : a.children i = n.children := Walk.children_of_node? hnode
  by_cases hnil : n.children = []
  · rw [hnil] at hcovers
    obtain rfl : x = y := hcovers
    rw [fitted_of_nil (hchildren.trans hnil), hnode]
    obtain ⟨kind, start, stop, name, parent, children⟩ := n
    dsimp only at hstart hstop
    subst hstart hstop
    rfl
  · have hspan : spanOfChildren? a i = some (x, y) :=
      Arena.Covers.spanOfChildren? (hchildren ▸ hcovers) (hchildren ▸ hnil)
    exact node?_fitted_of_span hnode hspan

/-- The session after a node was opened. -/
theorem after_start (h : s.Sound k) (hclosed : ¬ s.Closed) (kind : Kind) :
    s.Succeeds [.start kind] ∧ (s.after [.start kind]).Sound (k + 1) ∧
      s.after [.start kind] =
        { s.plant { kind, start := s.cursor, stop := s.cursor } with
          openNodes := s.arena.size :: s.openNodes } := by
  have hn : s.asked? (.start kind) = some { kind, start := s.cursor, stop := s.cursor } := rfl
  have hcall := call_of_asked? hn hclosed
  have hafter : s.after [.start kind] =
      (s.plant { kind, start := s.cursor, stop := s.cursor }).settle s.arena.size s.cursor
        (.start kind) := congrArg Prod.snd hcall
  refine ⟨.single (congrArg Prod.fst hcall), ?_, ?_⟩
  · rw [hafter, h.size_eq hclosed]
    exact h.place hn hclosed
  · rw [hafter, settle, openNodes_plant]

/-- From `s` to `t`, a node was opened and the nodes `is` were built under it. -/
structure Opened (s t : Session) (kind : Kind) (ts : List Outline) (is : List NodeId) : Prop where
  sound : ∃ k, t.Sound k
  text_eq : t.text = s.text
  fileName_eq : t.fileName = s.fileName
  openNodes_eq : t.openNodes = s.arena.size :: s.openNodes
  cursor_eq : t.cursor = s.cursor + Text.byteLength (Outline.textAll ts).toList
  node : ∃ parent, t.arena.node? s.arena.size =
    some { kind, start := s.cursor, stop := s.cursor, parent, children := is }
  kept : ∀ i < s.arena.size, t.arena.node? i = (s.arena.node? i).map fun n =>
    if s.openNodes.head? = some i then { n with children := n.children ++ [s.arena.size] } else n
  fresh : ∀ i ∈ is, s.arena.size + 1 ≤ i
  depicts : List.Forall₂ t.view.Depicts is ts
  covers : t.arena.Covers is s.cursor t.cursor

namespace Opened

variable {kind : Kind} {ts : List Outline} {is : List NodeId} {front rest : List Char}

theorem of_built (h : s.Sound k) (hclosed : ¬ s.Closed)
    (hbuilt : Built (s.after [.start kind]) t ts is) : Opened s t kind ts is := by
  rw [(after_start h hclosed kind).2.2] at hbuilt
  let n : Node := { kind, start := s.cursor, stop := s.cursor }
  obtain ⟨parent, hnode⟩ := node?_plant_self s n
  have hcursor : (s.plant n).cursor = s.cursor := cursor_plant s n
  have hsize : (s.plant n).arena.size = s.arena.size + 1 := size_plant s n
  refine ⟨hbuilt.sound, hbuilt.text_eq.trans (text_plant s n),
    hbuilt.fileName_eq.trans (fileName_plant s n), hbuilt.openNodes_eq, ?_, ⟨parent, ?_⟩, ?_, ?_,
    hbuilt.depicts, ?_⟩
  · rw [← hcursor]
    exact hbuilt.cursor_eq
  · rw [hbuilt.kept s.arena.size (hsize ▸ Nat.lt_succ_self _)]
    show ((s.plant n).arena.node? s.arena.size).map _ = _
    rw [hnode]
    simp [n]
  · intro i hi
    have hne : s.arena.size ≠ i := Nat.ne_of_gt hi
    rw [hbuilt.kept i (hsize ▸ Nat.lt_succ_of_lt hi)]
    simp only [List.head?_cons, Option.some.injEq, hne, if_false, Option.map_id']
    exact kept_plant h rfl rfl i hi
  · rw [← hsize]
    exact hbuilt.fresh
  · rw [← hcursor]
    exact hbuilt.covers

/-- The node depicts its outline once it is closed. -/
theorem depicts_node (h : Opened s t kind ts is)
    (htext : s.text.toList = front ++ (Outline.textAll ts).toList ++ rest)
    (hcursor : s.cursor = Text.byteLength front) :
    { t with arena := fitted t.arena s.arena.size, openNodes := s.openNodes }.view.Depicts
      s.arena.size (.node kind ts) := by
  obtain ⟨k, ht⟩ := h.sound
  obtain ⟨parent, hnode⟩ := h.node
  have hfitted := node?_fitted_self hnode h.covers rfl rfl
  refine .node ?_ ?_ ?_
  · show (fitted t.arena s.arena.size).kind? s.arena.size = _
    rw [Arena.kind?, hfitted]
    rfl
  · show List.Forall₂ _ ((fitted t.arena s.arena.size).children s.arena.size) ts
    rw [Walk.children_of_node? hfitted]
    -- closing changes the span of the node, and nothing below it
    have hsame : File.SameFrom (s.arena.size + 1) t.view
        { t with arena := fitted t.arena s.arena.size, openNodes := s.openNodes }.view :=
      ⟨rfl, fun j hlo _ => node?_fitted t.arena (Nat.ne_of_lt hlo),
        fun hc => ht.numbered.parent_lt (ht.numbered.isChild_iff.1 hc)⟩
    exact hsame.depictsAll ts is h.depicts h.fresh
  · have hslice : Text.slice? t.text.toList s.cursor t.cursor =
        some (Outline.textAll ts).toList := by
      rw [h.text_eq, htext]
      refine Text.slice?_eq_some_iff.2 ⟨front, rest, rfl, hcursor.symm, ?_⟩
      rw [Text.byteLength_append, h.cursor_eq, hcursor]
    show ((fitted t.arena s.arena.size).node? s.arena.size).bind _ = _
    rw [hfitted]
    simp [view, hslice]

/-- The pieces under a node that is closed are one piece with that node. -/
theorem close (h : Opened s t kind ts is)
    (htext : s.text.toList = front ++ (Outline.textAll ts).toList ++ rest)
    (hcursor : s.cursor = Text.byteLength front) :
    t.Succeeds [.finish] ∧ Built s (t.after [.finish]) [.node kind ts] [s.arena.size] := by
  obtain ⟨k, ht⟩ := h.sound
  obtain ⟨parent, hnode⟩ := h.node
  have hcall := call_finish h.openNodes_eq
  have hu : t.after [.finish] =
      { t with arena := fitted t.arena s.arena.size, openNodes := s.openNodes } :=
    congrArg Prod.snd hcall
  refine ⟨.single (congrArg Prod.fst hcall), ?_⟩
  rw [hu]
  refine ⟨⟨k, ht.close h.openNodes_eq⟩, h.text_eq, h.fileName_eq, rfl, ?_, ?_, ?_, ?_,
    .cons (h.depicts_node htext hcursor) .nil,
    ⟨_, node?_fitted_self hnode h.covers rfl rfl, rfl, rfl⟩⟩
  · simpa [Outline.textAll, Outline.text] using h.cursor_eq
  · show s.arena.size ≤ (fitted t.arena s.arena.size).size
    rw [(sameLinks_fitted t.arena _).size]
    exact Nat.le_of_lt (Arena.lt_size_of_node? hnode)
  · intro i hi
    show (fitted t.arena s.arena.size).node? i = _
    rw [node?_fitted _ (Nat.ne_of_gt hi)]
    exact h.kept i hi
  · intro i hi
    rw [List.mem_singleton.1 hi]

end Opened

/-! ## Whole outlines -/

mutual

/-- An outline whose text stands at the cursor is built, whatever is open. -/
theorem built_calls : ∀ (o : Outline) {s : Session} {k : Nat} (front rest : List Char),
    s.Sound k → ¬ s.Closed → s.text.toList = front ++ o.text.toList ++ rest →
      s.cursor = Text.byteLength front →
      s.Succeeds o.calls ∧ Built s (s.after o.calls) [o] [s.arena.size]
  | .token kind lexeme, s, k, front, rest, h, hclosed, htext, hcursor =>
    Built.token h hclosed kind htext hcursor
  | .node kind ts, s, k, front, rest, h, hclosed, htext, hcursor => by
    obtain ⟨hstart, hsound, heq⟩ := after_start h hclosed kind
    obtain ⟨hts, is, hbuilt⟩ := built_callsAll ts front rest hsound
      (by rw [heq]; exact List.cons_ne_nil _ _) (by rw [heq]; exact (text_plant s _).symm ▸ htext)
      (by rw [heq]; exact (cursor_plant s _).trans hcursor)
    obtain ⟨hfinish, hnode⟩ := (Opened.of_built h hclosed hbuilt).close htext hcursor
    have hcalls : (Outline.node kind ts).calls =
        [.start kind] ++ Outline.callsAll ts ++ [.finish] := by
      simp [Outline.calls]
    rw [hcalls, after_append, after_append]
    exact ⟨(hstart.append hts).append (by rw [after_append]; exact hfinish), hnode⟩

theorem built_callsAll : ∀ (ts : List Outline) {s : Session} {k : Nat} (front rest : List Char),
    s.Sound k → s.openNodes ≠ [] → s.text.toList = front ++ (Outline.textAll ts).toList ++ rest →
      s.cursor = Text.byteLength front →
      s.Succeeds (Outline.callsAll ts) ∧ ∃ is, Built s (s.after (Outline.callsAll ts)) ts is
  | [], s, k, front, rest, h, _, _, _ => ⟨fun _ he => absurd he List.not_mem_nil, [], .nil h⟩
  | o :: ts, s, k, front, rest, h, hopen, htext, hcursor => by
    have htext' : s.text.toList =
        front ++ o.text.toList ++ ((Outline.textAll ts).toList ++ rest) := by
      rw [htext, Outline.textAll, String.toList_append]
      simp
    obtain ⟨ho, hbuilt⟩ := built_calls o front _ h (fun hc => hopen hc.1) htext' hcursor
    obtain ⟨k', h'⟩ := hbuilt.sound
    obtain ⟨hts, is, hrest⟩ := built_callsAll ts (front ++ o.text.toList) rest h'
      (by rw [hbuilt.openNodes_eq]; exact hopen)
      (by rw [hbuilt.text_eq, htext']; simp)
      (by rw [hbuilt.cursor_eq, hcursor]; simp [Outline.textAll])
    rw [Outline.callsAll, after_append]
    exact ⟨ho.append hts, s.arena.size :: is, Built.append h hbuilt hrest⟩

end

/-- A session with a closed root is complete. -/
theorem Sound.file_eq_view (h : s.Sound k) (hopen : s.openNodes = []) (hsize : 0 < s.arena.size) :
    s.file = .ok s.view := by
  have hk : k ≠ 0 := by
    rintro rfl
    have hclosed : ¬ s.Closed := fun hc => hc.2 h.root_eq
    rw [h.size_eq hclosed] at hsize
    exact Nat.lt_irrefl 0 hsize
  have hroot : s.root = some 0 := by rw [h.root_eq, if_neg hk]
  simp [file, hopen, hroot, view]

/-- Every outline is built by its calls along its text, without a failure, and the file that comes
out shows it again: kinds and children from the root on, and the text of every node. -/
theorem file_outline (fileName : String) (o : Outline) :
    (∀ e ∈ (begin fileName o.text).transcript o.calls, ∃ i, e.2.result = .ok (some i)) ∧
    ∃ f, ((begin fileName o.text).after o.calls).file = .ok f ∧ f.name = fileName ∧
      f.text = o.text ∧ f.Depicts f.root o ∧ f.textOf? f.root = some o.text := by
  have hclosed : ¬ (begin fileName o.text).Closed := fun h => h.2 rfl
  obtain ⟨hsucceeds, hbuilt⟩ := built_calls o [] [] (Sound.begin fileName o.text) hclosed
    (by simp [begin]) rfl
  obtain ⟨k, hsound⟩ := hbuilt.sound
  obtain ⟨hdepicts, _⟩ := List.forall₂_cons.1 hbuilt.depicts
  obtain ⟨n, hnode, _⟩ := hbuilt.covers
  have hfile := hsound.file_eq_view hbuilt.openNodes_eq (Arena.lt_size_of_node? hnode)
  exact ⟨hsucceeds, _, hfile, hbuilt.fileName_eq, hbuilt.text_eq, hdepicts, hdepicts.textOf?_eq⟩

end Session

end ReturnHints
