import Graft.Draft
import Graft.Proofs.Draft.Order
import Graft.Proofs.Text.Cut

/-!
# `Graft.Proofs.Draft.Coherent` — what holds of every draft

A draft that starts from a window and takes edits one after the other stays *coherent*: its window is
a range of the text with a cut at both ends, each accepted edit is a range of the window with a cut at
both ends, and no two accepted edits conflict. Only the new edit is examined on each submission; that
the old ones remain apart from it rests on conflicts going both ways.
-/

namespace Graft.Draft

/-- The state that a draft is always in. -/
structure Coherent (d : Draft) : Prop where
  scope_le : d.scope.start ≤ d.scope.stop
  scope_start_boundary : d.text.isBoundary d.scope.start = true
  scope_stop_boundary : d.text.isBoundary d.scope.stop = true
  within : ∀ e ∈ d.edits, e.span.Within d.text d.scope.start d.scope.stop
  apart : d.edits.Pairwise (¬ ·.conflictsWith · = true)

/-! ## The decision on an edit -/

/-- The two tests of a submission, scope and cuts, say that its range is `Within` the scope. -/
theorem within_scope_iff {d : Draft} {e : Edit} :
    e.span.Within d.text d.scope.start d.scope.stop ↔ d.inScope e = true ∧ d.onBoundaries e = true := by
  rw [inScope, onBoundaries, Bool.and_eq_true, Bool.and_eq_true, Span.contains_iff_le,
    decide_eq_true_eq]
  constructor
  · rintro ⟨hstart, h, hstop, hb, hb'⟩
    exact ⟨⟨h, hstart, hstop⟩, hb, hb'⟩
  · rintro ⟨⟨h, hstart, hstop⟩, hb, hb'⟩
    exact ⟨hstart, h, hstop, hb, hb'⟩

/-- `judge?` finds nothing wrong just with the edits that lie `Within` the scope and conflict with no
    accepted one, which is what `Coherent` asks of an edit that is added. -/
theorem judge?_eq_none_iff {d : Draft} {e : Edit} :
    d.judge? e = none ↔ e.span.Within d.text d.scope.start d.scope.stop ∧
      ∀ a ∈ d.edits, ¬ a.conflictsWith e = true := by
  rw [within_scope_iff]
  unfold judge?
  by_cases hs : d.inScope e = true
  · by_cases hb : d.onBoundaries e = true
    · simp [hs, hb, List.find?_eq_none]
    · simp [hs, hb]
  · simp [hs]

theorem submit_of_judge?_eq_none {d : Draft} {e : Edit} (h : d.judge? e = none) :
    d.submit e = { d with edits := d.edits ++ [e] } := by
  rw [submit, h]

theorem submit_of_judge?_eq_some {d : Draft} {e : Edit} {f : Refusal} (h : d.judge? e = some f) :
    d.submit e = { d with refusals := d.refusals ++ [f] } := by
  rw [submit, h]

@[simp] theorem text_submit (d : Draft) (e : Edit) : (d.submit e).text = d.text := by
  unfold submit
  split <;> rfl

@[simp] theorem scope_submit (d : Draft) (e : Edit) : (d.submit e).scope = d.scope := by
  unfold submit
  split <;> rfl

@[simp] theorem text_submitAll (d : Draft) (edits : List Edit) :
    (d.submitAll edits).text = d.text := by
  unfold submitAll
  induction edits generalizing d with
  | nil => rfl
  | cons e rest ih => rw [List.foldl_cons, ih, text_submit]

@[simp] theorem scope_submitAll (d : Draft) (edits : List Edit) :
    (d.submitAll edits).scope = d.scope := by
  unfold submitAll
  induction edits generalizing d with
  | nil => rfl
  | cons e rest ih => rw [List.foldl_cons, ih, scope_submit]

/-! ## Windows -/

@[simp] theorem text_ofWindow (t : Text) (start stop : Nat) : (ofWindow t start stop).text = t :=
  rfl

@[simp] theorem edits_ofWindow (t : Text) (start stop : Nat) :
    (ofWindow t start stop).edits = [] :=
  rfl

@[simp] theorem refusals_ofWindow (t : Text) (start stop : Nat) :
    (ofWindow t start stop).refusals = [] :=
  rfl

/-- The initial state of the invariant: `ofWindow` clamps any two positions to a scope with a cut at both
    ends. -/
theorem coherent_ofWindow (t : Text) (start stop : Nat) : (ofWindow t start stop).Coherent where
  scope_le := Nat.le_trans (Text.floorBoundary_le t _) (Nat.min_le_right start _)
  scope_start_boundary := Text.isBoundary_floorBoundary t _
  scope_stop_boundary := Text.isBoundary_floorBoundary t _
  within := by simp
  apart := .nil

/-! ## Submissions -/

/-- The step of the invariant. An accepted edit is new at the end of `edits`, so only the pairs with it
    have to be looked at; a refusal changes nothing that `Coherent` speaks of. -/
theorem Coherent.submit {d : Draft} (h : d.Coherent) (e : Edit) : (d.submit e).Coherent := by
  cases hj : d.judge? e with
  | some f =>
      rw [submit_of_judge?_eq_some hj]
      exact ⟨h.scope_le, h.scope_start_boundary, h.scope_stop_boundary, h.within, h.apart⟩
  | none =>
      obtain ⟨hwithin, hfree⟩ := judge?_eq_none_iff.mp hj
      rw [submit_of_judge?_eq_none hj]
      -- only the new edit has to be looked at, both for its place and for its conflicts
      refine ⟨h.scope_le, h.scope_start_boundary, h.scope_stop_boundary, fun a ha => ?_, ?_⟩
      · rcases List.mem_append.mp ha with ha | ha
        · exact h.within a ha
        · exact List.mem_singleton.mp ha ▸ hwithin
      · refine List.pairwise_append.mpr ⟨h.apart, List.pairwise_singleton _ _, fun a ha b hb => ?_⟩
        exact List.mem_singleton.mp hb ▸ hfree a ha

/-- The run of the invariant, by `Coherent.submit` at each edit. -/
theorem Coherent.submitAll {d : Draft} (h : d.Coherent) (edits : List Edit) :
    (d.submitAll edits).Coherent := by
  unfold Draft.submitAll
  induction edits generalizing d with
  | nil => exact h
  | cons e rest ih => exact ih (h.submit e)

/-- `submitAll` accepts all edits at once if they lie `Within` the scope and neither conflict with each
    other nor with an edit that is there: then `judge?_eq_none_iff` applies to each of them in turn. -/
theorem submitAll_of_apart {d : Draft} {edits : List Edit}
    (hwithin : ∀ e ∈ edits, e.span.Within d.text d.scope.start d.scope.stop)
    (hfree : ∀ a ∈ d.edits, ∀ e ∈ edits, ¬ a.conflictsWith e = true)
    (hapart : edits.Pairwise (¬ ·.conflictsWith · = true)) :
    d.submitAll edits = { d with edits := d.edits ++ edits } := by
  induction edits generalizing d with
  | nil => simp [Draft.submitAll]
  | cons e rest ih =>
      obtain ⟨hfirst, hrest⟩ := List.pairwise_cons.mp hapart
      have haccept : d.judge? e = none :=
        judge?_eq_none_iff.mpr ⟨hwithin e (List.mem_cons_self ..), fun a ha =>
          hfree a ha e (List.mem_cons_self ..)⟩
      have hall := ih (d := { d with edits := d.edits ++ [e] })
        (fun a ha => hwithin a (List.mem_cons_of_mem _ ha)) (by
          intro a ha x hx
          rcases List.mem_append.mp ha with ha | ha
          · exact hfree a ha x (List.mem_cons_of_mem _ hx)
          · obtain rfl := List.mem_singleton.mp ha
            exact hfirst x hx) hrest
      show (d.submit e).submitAll rest = _
      rw [submit_of_judge?_eq_none haccept, hall, List.append_assoc]
      rfl

end Graft.Draft
