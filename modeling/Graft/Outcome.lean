import Graft.Draft

/-!
# `Graft.Outcome` — what a revision leaves behind

The revised text together with every edit that was refused on the way. Refusals never discard the
text; a caller that wants all or nothing asks for `output`.
-/

namespace Graft

/-- A revised text and the refusals that were collected. -/
structure Outcome where
  text : Text
  refusals : List Refusal
deriving DecidableEq, Repr

/-- A refusal as one flat row. -/
structure Refusal.Record where
  code : String
  message : String
  offset : Nat
  length : Nat
  line : Nat
  column : Nat
deriving DecidableEq, Repr

/-- The row of a refusal: its place is where the refused edit starts. -/
def Refusal.record (r : Refusal) : Refusal.Record :=
  ⟨r.code, r.message, r.start.offset, r.label.length, r.start.line, r.start.column⟩

namespace Outcome

/-- Whether any edit was refused. -/
def hasRefusals (o : Outcome) : Bool :=
  !o.refusals.isEmpty

/-- The refusals as rows. -/
def records (o : Outcome) : List Refusal.Record :=
  o.refusals.map Refusal.record

/-- The revised text, or the first refusal if there is one. -/
def output (o : Outcome) : Except Refusal Text :=
  match o.refusals with
  | [] => .ok o.text
  | r :: _ => .error r

/-- The outcome of the edits that a draft holds, if its window can be spliced. -/
def ofDraft? (d : Draft) : Option Outcome :=
  d.digest?.map (⟨·, d.refusals⟩)

end Outcome

end Graft
