import Graft.Outcome
import Graft.Proofs.Draft.Admission
import Graft.Proofs.Text.Checked

/-!
# `Graft.Proofs.Draft.Checked` — refusals can be made out, and point into the text

A draft answers any edit at all: inverted, past the end of the text, inside a character, with numbers of
any size. Most of what it computes for an answer is computed from these numbers.

`Checked.submitAll_checked` follows it with every step that could fail. A window is opened, edits are
submitted to it and positions are looked up, and there is an answer each time, the one of the functions
without checks. In each refusal all labels and locations lie within the text, and so does its row.

## Contents
- `Checked.ofWindow?`, `locate?`, `excerpt?`, `label?`, `refusal?`, `judge?`, `submit?`,
  `submitAll?`: the draft with every step checked.
- `Label.Inside`, `Refusal.locations`, `Refusal.Inside`: what it is to point into the text.
-/

namespace Graft

/-- A stretch of the text that ends within it. -/
def Label.Inside (t : Text) (l : Label) : Prop :=
  l.offset + l.length ≤ t.size

/-- The locations that a refusal names: of the edit, and of the other range if there is one. -/
def Refusal.locations (r : Refusal) : List Location :=
  [r.start, r.stop] ++ match r.other? with
    | some (start, stop) => [start, stop]
    | none => []

/-- A refusal that points into the text, as it stands and as a row. -/
structure Refusal.Inside (t : Text) (r : Refusal) : Prop where
  labels : ∀ l ∈ r.labels, l.2.Inside t
  locations : ∀ l ∈ r.locations, l.Inside t
  record_offset : r.record.offset = r.label.offset
  record_length : r.record.length = r.label.length
  record_inside : r.record.offset + r.record.length ≤ t.size

namespace Checked

variable {limit : Nat} {d : Draft}

/-! ## The draft, step by step -/

/-- A draft over the text between two positions, and the table that it keeps. -/
def ofWindow? (limit : Nat) (t : Text) (start stop : Nat) : Option Draft := do
  let stop ← floorBoundary? t (min stop t.size)
  let start ← floorBoundary? t (min start stop)
  let _ ← lineIndex? limit t
  return ⟨t, ⟨start, stop⟩, [], []⟩

/-- Where a position lies in the text. -/
def locate? (limit : Nat) (d : Draft) (p : Nat) : Option Location := do
  let x ← lineIndex? limit d.text
  locateBy? limit x d.text p

/-- The quotation of a range. -/
def excerpt? (limit : Nat) (d : Draft) (start stop : Nat) : Option Text := do
  let x ← lineIndex? limit d.text
  excerptBy? limit x d.text start stop

/-- The stretch of the text that a range points at. -/
def label? (d : Draft) (start stop : Nat) : Option Label := do
  let start := min start d.text.size
  let stop ← clamp? stop start d.text.size
  let length ← sub? stop start
  return ⟨start, length⟩

/-- The refusal of an edit for the given cause. -/
def refusal? (limit : Nat) (d : Draft) (e : Edit) (cause : Refusal.Cause) (context : Text) :
    Option Refusal := do
  let label ← label? d e.start e.stop
  let start ← locate? limit d e.start
  let stop ← locate? limit d e.stop
  return ⟨cause, label, start, stop, context⟩

/-- The decision on an edit: nothing where it is accepted, and a refusal otherwise. -/
def judge? (limit : Nat) (d : Draft) (e : Edit) : Option (Option Refusal) :=
  if !d.inScope e then do
    let start ← locate? limit d d.scope.start
    let stop ← locate? limit d d.scope.stop
    let quotation ← excerpt? limit d e.start e.stop
    some <$> refusal? limit d e (.outOfScope start stop) quotation
  else if !d.onBoundaries e then do
    let quotation ← excerpt? limit d e.start e.stop
    some <$> refusal? limit d e .splitsCharacter quotation
  else match d.edits.find? (·.conflictsWith e) with
    | none => some none
    | some accepted => do
        let label ← label? d accepted.start accepted.stop
        let start ← locate? limit d accepted.start
        let stop ← locate? limit d accepted.stop
        let quotation ← excerpt? limit d e.start e.stop
        let quotation' ← excerpt? limit d accepted.start accepted.stop
        some <$> refusal? limit d e (.conflict label start stop)
          ("rejected ".toList ++ quotation ++ "accepted ".toList ++ quotation')

/-- The collection after one more edit was submitted. -/
def submit? (limit : Nat) (d : Draft) (e : Edit) : Option Draft := do
  match ← judge? limit d e with
  | none => return { d with edits := d.edits ++ [e] }
  | some r => return { d with refusals := d.refusals ++ [r] }

/-- The collection after some more edits, submitted one after the other. -/
def submitAll? (limit : Nat) (d : Draft) (edits : List Edit) : Option Draft :=
  edits.foldlM (submit? limit) d

/-! ## Every step has its answer -/

theorem ofWindow?_eq {t : Text} (hlimit : t.size ≤ limit) (start stop : Nat) :
    ofWindow? limit t start stop = some (Draft.ofWindow t start stop) := by
  have hstop : t.floorBoundary (min stop t.size) ≤ t.size :=
    Text.le_size_of_isBoundary (Text.isBoundary_floorBoundary t _)
  rw [ofWindow?, floorBoundary?_eq (Nat.min_le_right _ _)]
  simp only [Option.bind_eq_bind, Option.bind_some]
  rw [floorBoundary?_eq (Nat.le_trans (Nat.min_le_right _ _) hstop), lineIndex?_eq hlimit]
  rfl

theorem label?_eq (d : Draft) (start stop : Nat) :
    label? d start stop = some (d.label start stop) := by
  rw [label?, clamp?_eq (Nat.min_le_right _ _)]
  simp only [Option.bind_eq_bind, Option.bind_some]
  rw [sub?_eq (Nat.le_max_left _ _)]
  rfl

section

variable (hlimit : d.text.size + 2 ≤ limit)
include hlimit

theorem locate?_eq (p : Nat) : locate? limit d p = some (d.locate p) := by
  rw [locate?, lineIndex?_eq (Nat.le_of_add_right_le hlimit)]
  exact locateBy?_eq (Nat.le_of_succ_le hlimit) p

theorem excerpt?_eq (start stop : Nat) :
    excerpt? limit d start stop = some (d.excerpt start stop) := by
  rw [excerpt?, lineIndex?_eq (Nat.le_of_add_right_le hlimit)]
  exact excerptBy?_eq hlimit start stop

theorem refusal?_eq (e : Edit) (cause : Refusal.Cause) (context : Text) :
    refusal? limit d e cause context = some (d.refusal e cause context) := by
  rw [refusal?, label?_eq, locate?_eq hlimit, locate?_eq hlimit]
  rfl

/-- The checked `judge?` in the three ways that it may refuse, and where it refuses nothing. -/
theorem judge?_eq (e : Edit) : judge? limit d e = some (d.judge? e) := by
  unfold judge? Draft.judge?
  simp only [locate?_eq hlimit, excerpt?_eq hlimit, refusal?_eq hlimit, label?_eq,
    Option.bind_eq_bind, Option.bind_some, Option.map_eq_map, Option.map_some]
  cases d.inScope e with
  | false => rfl
  | true =>
      cases d.onBoundaries e with
      | false => rfl
      | true =>
          cases d.edits.find? (·.conflictsWith e) with
          | none => rfl
          | some accepted => rfl

theorem submit?_eq (e : Edit) : submit? limit d e = some (d.submit e) := by
  rw [submit?, judge?_eq hlimit, Draft.submit]
  cases d.judge? e with
  | none => rfl
  | some r => rfl

/-- Submissions in a row, each of which succeeds by `submit?_eq`. -/
theorem submitAll?_eq (edits : List Edit) :
    submitAll? limit d edits = some (d.submitAll edits) := by
  unfold submitAll? Draft.submitAll
  induction edits generalizing d with
  | nil => rfl
  | cons e rest ih =>
      rw [List.foldlM_cons, submit?_eq hlimit, List.foldl_cons]
      exact ih (by rwa [Draft.text_submit])

end

end Checked

/-! ## Refusals point into the text -/

namespace Draft

theorem inside_label (d : Draft) (start stop : Nat) : (d.label start stop).Inside d.text := by
  simp only [Label.Inside, label]
  omega

theorem inside_locate (d : Draft) (p : Nat) : (d.locate p).Inside d.text :=
  LineIndex.inside_locate d.text p

/-- Labels and locations of a `refusal` are clamped by `label` and `locate`. Only the cause brings
    positions of its own, and what `Objects` has them inside the text. -/
theorem inside_refusal (d : Draft) (e : Edit) (cause : Refusal.Cause) (context : Text)
    (hcause : d.Objects e cause) : (d.refusal e cause context).Inside d.text where
  labels := by
    cases hcause with
    | outOfScope => simp [Refusal.labels, refusal, inside_label]
    | splitsCharacter => simp [Refusal.labels, refusal, inside_label]
    | conflict => simp [Refusal.labels, refusal, inside_label]
  locations := by
    cases hcause with
    | outOfScope => simp [Refusal.locations, Refusal.other?, refusal, inside_locate]
    | splitsCharacter => simp [Refusal.locations, Refusal.other?, refusal, inside_locate]
    | conflict => simp [Refusal.locations, Refusal.other?, refusal, inside_locate]
  record_offset := rfl
  record_length := rfl
  record_inside := inside_label d e.start e.stop

/-- `submit` keeps all refusals `Inside` the text, since `judge?` makes its refusals by
    `inside_refusal`. -/
theorem inside_submit {d : Draft} (h : ∀ r ∈ d.refusals, r.Inside d.text) (e : Edit) :
    ∀ r ∈ (d.submit e).refusals, r.Inside d.text := by
  rcases submit_admission d e with ⟨-, hsubmit, -⟩ | ⟨-, cause, context, hobjects, hsubmit, -⟩
  · rw [hsubmit]
    exact h
  · rw [hsubmit]
    intro r hr
    rcases List.mem_append.mp hr with hr | hr
    · exact h r hr
    · rw [List.mem_singleton.mp hr]
      exact inside_refusal d e cause context hobjects

/-- All refusals of a draft point inside its text. -/
theorem inside_submitAll {d : Draft} (h : ∀ r ∈ d.refusals, r.Inside d.text) (edits : List Edit) :
    ∀ r ∈ (d.submitAll edits).refusals, r.Inside d.text := by
  unfold submitAll
  induction edits generalizing d with
  | nil => exact h
  | cons e rest ih =>
      have hrest := ih (d := d.submit e) (by rw [text_submit]; exact inside_submit h e)
      rwa [text_submit] at hrest

/-- **No step fails.** `ofWindow?`, `submitAll?` and `locate?` check each addition, index and slice
    against `limit`, and agree with `ofWindow`, `submitAll` and `locate` on every window and every edit.
    What they report lies `Inside` the text. Inverted edits, and edits past the end or within a character,
    are no exception. -/
theorem submitAll_checked (t : Text) (start stop : Nat) (edits : List Edit) {limit : Nat}
    (hlimit : t.size + 2 ≤ limit) :
    let d := (ofWindow t start stop).submitAll edits
    (Checked.ofWindow? limit t start stop).bind (Checked.submitAll? limit · edits) = some d ∧
      (∀ p, Checked.locate? limit d p = some (d.locate p) ∧ (d.locate p).Inside t) ∧
      ∀ r ∈ d.refusals, r.Inside t := by
  intro d
  have htext : d.text = t := text_submitAll _ edits
  refine ⟨?_, fun p => ⟨?_, ?_⟩, ?_⟩
  · rw [Checked.ofWindow?_eq (Nat.le_of_add_right_le hlimit), Option.bind_some]
    exact Checked.submitAll?_eq hlimit edits
  · exact Checked.locate?_eq (htext.symm ▸ hlimit) p
  · exact htext ▸ inside_locate d p
  · exact inside_submitAll (d := ofWindow t start stop) (by simp) edits

/-- `submitAll_checked` at numbers of 64 bits: a range from the largest of them back to zero, one up
    to the largest, one that ends inside a character, one that is accepted, and one that conflicts
    with it. -/
theorem submitAll_checked_largest : ∃ d,
    (Checked.ofWindow? (UInt64.size - 1) ['a', 'é', '\n', 'b'] 0 (UInt64.size - 1)).bind
        (Checked.submitAll? (UInt64.size - 1) ·
          [⟨UInt64.size - 1, 0, []⟩, ⟨0, UInt64.size - 1, []⟩, ⟨2, 3, []⟩, ⟨1, 3, ['e']⟩,
            ⟨0, 5, []⟩]) = some d ∧
      d.edits = [⟨1, 3, ['e']⟩] ∧
      d.refusals.map (·.label) = [⟨5, 0⟩, ⟨0, 5⟩, ⟨2, 1⟩, ⟨0, 5⟩] ∧
      ∀ r ∈ d.refusals, r.Inside ['a', 'é', '\n', 'b'] := by
  obtain ⟨hrun, -, hinside⟩ := @submitAll_checked ['a', 'é', '\n', 'b'] 0 (UInt64.size - 1)
    [⟨UInt64.size - 1, 0, []⟩, ⟨0, UInt64.size - 1, []⟩, ⟨2, 3, []⟩, ⟨1, 3, ['e']⟩, ⟨0, 5, []⟩]
    (UInt64.size - 1) (by decide)
  exact ⟨_, hrun, by decide, by decide, hinside⟩

end Draft

end Graft
