import ReturnHints.Log.Event

/-!
# Computations with a journal

`Traced α` is a value together with what happened on the way to it: the questions put to the
oracle and the log events, in order.  What is computed does not depend on the journal, so the
value can be read alone (`value_bind`).
-/

namespace ReturnHints.Log

inductive Entry
  | asked (question : Question)
  | logged (event : Event)
deriving DecidableEq

structure Traced (α : Type) where
  value : α
  journal : List Entry := []

namespace Traced

protected def pure {α : Type} (a : α) : Traced α := ⟨a, []⟩

protected def bind {α β : Type} (x : Traced α) (f : α → Traced β) : Traced β :=
  ⟨(f x.value).value, x.journal ++ (f x.value).journal⟩

instance : Monad Traced where
  pure := Traced.pure
  bind := Traced.bind

/-- Puts a question on record. -/
def ask (q : Question) : Traced Unit := ⟨(), [.asked q]⟩

/-- Puts a log event on record. -/
def log (e : Event) : Traced Unit := ⟨(), [.logged e]⟩

/-- The questions asked, in order. -/
def questions {α : Type} (x : Traced α) : List Question :=
  x.journal.filterMap fun
    | .asked q => some q
    | .logged _ => none

/-- The events logged, in order. -/
def events {α : Type} (x : Traced α) : List Event :=
  x.journal.filterMap fun
    | .asked _ => none
    | .logged e => some e

/-! ## Lemmas -/

@[simp] theorem value_pure {α : Type} (a : α) : (pure a : Traced α).value = a := rfl

@[simp] theorem journal_pure {α : Type} (a : α) : (pure a : Traced α).journal = [] := rfl

@[simp] theorem value_bind {α β : Type} (x : Traced α) (f : α → Traced β) :
    (x >>= f).value = (f x.value).value := rfl

@[simp] theorem journal_bind {α β : Type} (x : Traced α) (f : α → Traced β) :
    (x >>= f).journal = x.journal ++ (f x.value).journal := rfl

@[simp] theorem value_map {α β : Type} (x : Traced α) (f : α → β) :
    (f <$> x).value = f x.value := rfl

@[simp] theorem questions_pure {α : Type} (a : α) : (pure a : Traced α).questions = [] := rfl

@[simp] theorem questions_bind {α β : Type} (x : Traced α) (f : α → Traced β) :
    (x >>= f).questions = x.questions ++ (f x.value).questions := by
  simp [questions]

@[simp] theorem questions_map {α β : Type} (x : Traced α) (f : α → β) :
    (f <$> x).questions = x.questions := by
  show (x >>= fun a => pure (f a)).questions = _
  rw [questions_bind, questions_pure, List.append_nil]

@[simp] theorem questions_ask (q : Question) : (ask q).questions = [q] := rfl

@[simp] theorem questions_log (e : Event) : (log e).questions = [] := rfl

instance : LawfulMonad Traced := LawfulMonad.mk' Traced
  (by
    intro α x
    cases x
    simp [Functor.map, Traced.bind, Traced.pure])
  (by
    intro α β x f
    simp [Bind.bind, Pure.pure, Traced.bind, Traced.pure])
  (by
    intro α β γ x f g
    simp [Bind.bind, Traced.bind, List.append_assoc])

end Traced

end ReturnHints.Log
