import Graft.Text.LineIndex

/-!
# `Graft.Refusal` — why an edit was turned down

A refused edit is recorded with its cause, the place it asked for, and a quotation of the lines
concerned. Refusals are answers, not failures: the edits that were accepted still apply.
-/

namespace Graft

/-- A stretch of the text that a report points at. -/
structure Label where
  offset : Nat
  length : Nat
deriving DecidableEq, Repr

/-- What is wrong with a requested edit. -/
inductive Refusal.Cause
  /-- The edit is inverted or leaves the window that runs between the two locations. -/
  | outOfScope (start stop : Location)
  /-- One end of the edit lies inside a character. -/
  | splitsCharacter
  /-- An edit accepted earlier claims some of the same text. -/
  | conflict (accepted : Label) (start stop : Location)
deriving DecidableEq, Repr

/-- A requested edit that was turned down. -/
structure Refusal where
  cause : Refusal.Cause
  label : Label
  start : Location
  stop : Location
  context : Text
deriving DecidableEq, Repr

namespace Refusal

/-- The refusal in words. -/
def message (r : Refusal) : String :=
  let edit := "edit " ++ r.start.describe ++ "-" ++ r.stop.describe
  match r.cause with
  | .outOfScope start stop =>
      edit ++ " is out of scope " ++ start.describe ++ "-" ++ stop.describe
  | .splitsCharacter => edit ++ " splits a multi-byte character"
  | .conflict _ start stop =>
      edit ++ " conflicts with accepted edit " ++ start.describe ++ "-" ++ stop.describe

/-- The stable name of the kind of refusal. -/
def code (r : Refusal) : String :=
  match r.cause with
  | .outOfScope .. => "replacer::out_of_scope"
  | .splitsCharacter => "replacer::char_boundary"
  | .conflict .. => "replacer::conflict"

/-- The labels that a report of the refusal shows, each with its caption. -/
def labels (r : Refusal) : List (String × Label) :=
  match r.cause with
  | .conflict accepted .. => [("rejected edit", r.label), ("accepted edit", accepted)]
  | _ => [("edit requested here", r.label)]

/-- The other range that the refusal names: the window, or the accepted edit. -/
def other? (r : Refusal) : Option (Location × Location) :=
  match r.cause with
  | .outOfScope start stop => some (start, stop)
  | .splitsCharacter => none
  | .conflict _ start stop => some (start, stop)

end Refusal

end Graft
