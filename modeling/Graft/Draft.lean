import Graft.Edit
import Graft.Traced

/-!
# `Graft.Draft` — edits against a window of a text

A draft accepts edits one at a time. An edit is refused if it is inverted or leaves the window, if
one of its ends lies inside a character, or if it conflicts with an edit accepted before; every
refusal is kept with a quotation. The digest is the window with the accepted edits carried out.

## Contents
- `Draft.ofWindow`, `whole`: an empty collection over a window that is clamped to the text.
- `judge?`, `submit`, `submitAll`: the decision on an edit and its effect; `update` and `updateAll`
  also note the events.
- `splice?`, `digest?`: one pass over the ordered edits.
-/

namespace Graft

/-- The edits submitted so far against a window of a text. -/
structure Draft where
  text : Text
  scope : Span
  edits : List Edit
  refusals : List Refusal
deriving DecidableEq, Repr

namespace Draft

/-- A draft over the text between two positions. Positions past the end count as the end, an
    inverted window is empty, and an end inside a character moves before it. -/
def ofWindow (t : Text) (start stop : Nat) : Draft :=
  let stop := t.floorBoundary (min stop t.size)
  let start := t.floorBoundary (min start stop)
  ⟨t, ⟨start, stop⟩, [], []⟩

/-- A draft over a whole text. -/
def whole (t : Text) : Draft :=
  ofWindow t 0 t.size

/-- Where a position lies in the text. -/
def locate (d : Draft) (p : Nat) : Location :=
  (LineIndex.ofText d.text).locate d.text p

/-- The quotation of a range. -/
def excerpt (d : Draft) (start stop : Nat) : Text :=
  (LineIndex.ofText d.text).excerpt d.text start stop

/-- The stretch of the text that a range points at, moved into the text where it leaves it. -/
def label (d : Draft) (start stop : Nat) : Label :=
  let start := min start d.text.size
  let stop := max start (min stop d.text.size)
  ⟨start, stop - start⟩

/-- Whether an edit is in order and within the window. -/
def inScope (d : Draft) (e : Edit) : Bool :=
  e.start ≤ e.stop && d.scope.contains e.span

/-- Whether both ends of an edit are places where the text can be cut. -/
def onBoundaries (d : Draft) (e : Edit) : Bool :=
  d.text.isBoundary e.start && d.text.isBoundary e.stop

/-- The refusal of an edit for the given cause. -/
def refusal (d : Draft) (e : Edit) (cause : Refusal.Cause) (context : Text) : Refusal :=
  ⟨cause, d.label e.start e.stop, d.locate e.start, d.locate e.stop, context⟩

/-- Why an edit cannot be accepted now. Nothing stands in the way of one that is in scope, cuts no
    character, and conflicts with none of the accepted edits. -/
def judge? (d : Draft) (e : Edit) : Option Refusal :=
  let quotation := d.excerpt e.start e.stop
  if !d.inScope e then
    some (d.refusal e (.outOfScope (d.locate d.scope.start) (d.locate d.scope.stop)) quotation)
  else if !d.onBoundaries e then
    some (d.refusal e .splitsCharacter quotation)
  else
    (d.edits.find? (·.conflictsWith e)).map fun accepted =>
      d.refusal e
        (.conflict (d.label accepted.start accepted.stop) (d.locate accepted.start)
          (d.locate accepted.stop))
        ("rejected ".toList ++ quotation ++ "accepted ".toList
          ++ d.excerpt accepted.start accepted.stop)

/-- The collection after one more edit was submitted. -/
def submit (d : Draft) (e : Edit) : Draft :=
  match d.judge? e with
  | none => { d with edits := d.edits ++ [e] }
  | some f => { d with refusals := d.refusals ++ [f] }

/-- What the submission of an edit amounts to. -/
def event (d : Draft) (e : Edit) : Event :=
  match d.judge? e with
  | none => .accepted e.start e.stop e.replacement.size
  | some f => .refused f

/-- Submits an edit and notes whether it was accepted. -/
def update (d : Draft) (e : Edit) : Traced Draft := do
  .note (d.event e)
  return d.submit e

/-- The draft after some more edits, submitted one after the other. -/
def submitAll (d : Draft) (edits : List Edit) : Draft :=
  edits.foldl submit d

/-- Submits edits one after the other and notes for each whether it was accepted. -/
def updateAll (d : Draft) : List Edit → Traced Draft
  | [] => return d
  | e :: rest => do
      let d ← d.update e
      d.updateAll rest

/-- The text from position `done` to `stop` with ordered edits carried out, if every stretch between
    them can be cut out. -/
def splice? (t : Text) (stop : Nat) : Nat → List Edit → Option Text
  | done, [] => if done < stop then t.slice? done stop else some []
  | done, e :: rest => do
      let kept ← if done < e.start then t.slice? done e.start else some []
      let tail ← splice? t stop (max done e.stop) rest
      return kept ++ e.replacement ++ tail

/-- The window with every accepted edit carried out. -/
def digest? (d : Draft) : Option Text :=
  splice? d.text d.scope.stop d.scope.start (Edit.inOrder d.edits)

end Draft

end Graft
