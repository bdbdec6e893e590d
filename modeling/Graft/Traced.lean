import Graft.Event

/-!
# `Graft.Traced` — runs that keep a log and may be cut short

A traced run yields the events that happened, in order, and either a result or the reason why there is
none. The log survives when the run is cut short. The result of a sequence of runs depends on the
results of its parts alone (`result_bind`), so that facts about results never mention the log.
-/

namespace Graft

/-- Why a run has no result. -/
inductive Halt
  /-- The grammar is wired incorrectly. -/
  | defect (d : Defect)
  /-- A text was cut where it cannot be cut. -/
  | badSlice
  /-- A rule leads back to itself at the same position. -/
  | endless
deriving DecidableEq, Repr

/-- The log of a run and its outcome. -/
structure Traced (α : Type) where
  log : List Event
  result : Except Halt α

namespace Traced

variable {α β : Type}

/-- Runs one after the other. The second does not happen when the first was cut short. -/
def andThen (x : Traced α) (f : α → Traced β) : Traced β :=
  match x.result with
  | .ok a => ⟨x.log ++ (f a).log, (f a).result⟩
  | .error h => ⟨x.log, .error h⟩

instance : Monad Traced where
  pure a := ⟨[], .ok a⟩
  bind := andThen

/-- Notes an event. -/
def note (e : Event) : Traced Unit :=
  ⟨[e], .ok ()⟩

/-- Cuts the run short. -/
def halt (h : Halt) : Traced α :=
  ⟨[], .error h⟩

/-- Reports a defect and cuts the run short with it. -/
def raise (d : Defect) : Traced α :=
  ⟨[.defect d], .error (.defect d)⟩

@[simp] theorem result_pure (a : α) : (pure a : Traced α).result = .ok a := rfl

@[simp] theorem log_pure (a : α) : (pure a : Traced α).log = [] := rfl

@[simp] theorem result_note (e : Event) : (note e).result = .ok () := rfl

@[simp] theorem result_halt (h : Halt) : (halt h : Traced α).result = .error h := rfl

@[simp] theorem result_raise (d : Defect) :
    (raise d : Traced α).result = .error (.defect d) := rfl

/-- The `result` of a sequence depends on the results of its parts alone. Proofs about results drop the
    log by it. -/
@[simp] theorem result_bind (x : Traced α) (f : α → Traced β) :
    (x >>= f).result = x.result.bind fun a => (f a).result := by
  obtain ⟨log, result⟩ := x
  cases result <;> rfl

@[simp] theorem result_map (f : α → β) (x : Traced α) :
    (f <$> x).result = x.result.map f := by
  obtain ⟨log, result⟩ := x
  cases result <;> rfl

/-- `result_bind` for what is only put into another form. -/
theorem result_bind_pure (x : Traced α) (f : α → β) :
    (x >>= fun a => pure (f a)).result = x.result.map f := by
  rw [result_bind]
  cases x.result <;> rfl

instance : LawfulMonad Traced :=
  LawfulMonad.mk' Traced
    (by
      rintro α ⟨log, result⟩
      cases result <;> simp [Functor.map, andThen])
    (by
      intro α β a f
      simp [bind, andThen, pure])
    (by
      rintro α β γ ⟨log, result⟩ f g
      cases result with
      | error h => rfl
      | ok a =>
        simp only [bind, andThen]
        cases (f a).result <;> simp)

end Traced

end Graft
