import Graft.Locator
import Graft.Outcome

/-!
# `Graft.Revision` — replacing the constructs of a window

A revision finds constructs and asks a transform for the replacement of each. A transform may leave a
construct as it is, and may hand on refusals from revisions of its own, which come before those of the
revision that it takes part in. It may also remember what it was asked before.

## Contents
- `Reply`, `Transform`, `Transform.Remembering`: what transforms are given and what they say.
- `applyReplies`: asking for every construct in turn.
- `reviseFrom`, `revise`: revisions with a memory and without one.
-/

namespace Graft

/-- What a transform says about a construct. -/
structure Reply where
  /-- The text to put in its place, if it is to be replaced. -/
  replacement : Option Text
  /-- The refusals of revisions inside the construct. -/
  refusals : List Refusal
deriving DecidableEq, Repr

/-- Decides what becomes of a construct. -/
abbrev Transform := Block → Traced Reply

/-- Decides what becomes of a construct with what it remembers, and says what to remember from now
    on. -/
abbrev Transform.Remembering (σ : Type) := σ → Block → Traced (Reply × σ)

/-- A transform that remembers nothing. -/
def Transform.remembering (transform : Transform) : Transform.Remembering Unit := fun _ b => do
  return (← transform b, ())

/-- Goes on with a text that could be cut out, or cuts the run short. -/
def Traced.ofSlice (slice : Option Text) : Traced Text :=
  match slice with
  | some s => pure s
  | none => .halt .badSlice

/-- A draft, the refusals handed on and what is remembered, after the replies about some more
    constructs. -/
def applyReplies {σ : Type} (transform : Transform.Remembering σ) :
    List Block → Draft → List Refusal → σ → Traced (Draft × List Refusal × σ)
  | [], d, sunk, memory => return (d, sunk, memory)
  | b :: rest, d, sunk, memory => do
      let (reply, memory) ← transform memory b
      let d ← match reply.replacement with
        | none => pure d
        | some s => d.update ⟨b.start, b.stop, s⟩
      applyReplies transform rest d (sunk ++ reply.refusals) memory

/-- Replaces the constructs that a locator finds between two positions as a transform says that begins
    with the given memory: the outcome, and what is remembered in the end. -/
def reviseFrom {σ : Type} (t : Text) (start stop : Nat) (l : Locator)
    (transform : Transform.Remembering σ) (memory : σ) : Traced (Outcome × σ) := do
  let d := Draft.ofWindow t start stop
  let blocks ← l.locateAll t d.scope.start d.scope.stop
  let (d, sunk, memory) ← applyReplies transform blocks d [] memory
  let text ← Traced.ofSlice d.digest?
  return (⟨text, sunk ++ d.refusals⟩, memory)

/-- Replaces the constructs that a locator finds between two positions as a transform says. -/
def revise (t : Text) (start stop : Nat) (l : Locator) (transform : Transform) :
    Traced Outcome := do
  let (outcome, _) ← reviseFrom t start stop l transform.remembering ()
  return outcome

end Graft
