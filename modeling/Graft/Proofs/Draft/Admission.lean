import Graft.Proofs.Draft.Coherent

/-!
# `Graft.Proofs.Draft.Admission` — which edits are accepted, and why the others are not

A draft is greedy. It accepts an edit exactly when the edit can stand beside everything accepted before
it (`Draft.Admits`); whatever comes later has to make do with what is left. An edit that is turned down
leaves one refusal behind and nothing else, and the refusal names the first thing that is wrong
(`Draft.Objects`): the place of the edit, then its ends, then the oldest of the accepted edits that it
conflicts with.

`submit_admission` says this of one submission, and `submitAll_admission` of every draft that
submissions can lead to.
-/

namespace Graft.Draft

/-- An edit that can be added to the accepted ones: it is a range of the window with a cut of the text
    at both ends, and claims nothing that one of them claims. -/
structure Admits (d : Draft) (e : Edit) : Prop where
  within : e.span.Within d.text d.scope.start d.scope.stop
  free : ∀ a ∈ d.edits, ¬ a.conflictsWith e = true

/-- The first thing that is wrong with an edit, as the cause of its refusal. -/
inductive Objects (d : Draft) (e : Edit) : Refusal.Cause → Prop
  /-- The edit is inverted, or leaves the window on one side. -/
  | outOfScope (h : e.stop < e.start ∨ e.start < d.scope.start ∨ d.scope.stop < e.stop) :
      Objects d e (.outOfScope (d.locate d.scope.start) (d.locate d.scope.stop))
  /-- The edit is a range of the window, but the text cannot be cut at both of its ends. -/
  | splitsCharacter (hle : e.start ≤ e.stop) (hstart : d.scope.start ≤ e.start)
      (hstop : e.stop ≤ d.scope.stop)
      (hinside : d.text.isBoundary e.start = false ∨ d.text.isBoundary e.stop = false) :
      Objects d e .splitsCharacter
  /-- The edit would do, were it not for `a`, the oldest accepted edit that it conflicts with. -/
  | conflict {older newer : List Edit} {a : Edit}
      (hwithin : e.span.Within d.text d.scope.start d.scope.stop)
      (hedits : d.edits = older ++ a :: newer) (holder : ∀ b ∈ older, ¬ b.conflictsWith e = true)
      (hconflict : a.conflictsWith e = true) :
      Objects d e
        (.conflict (d.label a.start a.stop) (d.locate a.start) (d.locate a.stop))

variable {d : Draft} {e : Edit}

theorem inScope_iff :
    d.inScope e = true ↔
      e.start ≤ e.stop ∧ d.scope.start ≤ e.start ∧ e.stop ≤ d.scope.stop := by
  rw [inScope, Bool.and_eq_true, Span.contains_iff_le, decide_eq_true_eq]
  rfl

/-- `Admits` is stated without the order of the tests that `judge?` makes. -/
theorem admits_iff : d.Admits e ↔ d.judge? e = none := by
  rw [judge?_eq_none_iff]
  exact ⟨fun h => ⟨h.within, h.free⟩, fun h => ⟨h.1, h.2⟩⟩

/-- `Objects` and `Admits` exclude each other: each cause contradicts its own clause of `Admits`. -/
theorem not_admits_of_objects {cause : Refusal.Cause} (h : d.Objects e cause) : ¬ d.Admits e := by
  intro hadmits
  obtain ⟨hstart, hle, hstop, hb, hb'⟩ := hadmits.within
  cases h with
  | outOfScope h =>
      simp only [Edit.span] at hstart hle hstop
      omega
  | splitsCharacter _ _ _ hinside =>
      rcases hinside with h | h
      · exact absurd (h.symm.trans hb) (by simp)
      · exact absurd (h.symm.trans hb') (by simp)
  | conflict _ hedits _ hconflict =>
      exact hadmits.free _ (by rw [hedits]; simp) hconflict

/-- `judge?` is sound: its refusal is about the edit `e`, and the cause that it names is one that
    `Objects` to it. -/
theorem objects_of_judge? {r : Refusal} (h : d.judge? e = some r) :
    ∃ cause context, r = d.refusal e cause context ∧ d.Objects e cause := by
  unfold judge? at h
  dsimp only at h
  split at h
  next hscope =>
    refine ⟨_, _, (Option.some.inj h).symm, .outOfScope ?_⟩
    have hscope : ¬ d.inScope e = true := by simpa using hscope
    rw [inScope_iff] at hscope
    omega
  next hscope =>
    have hscope : d.inScope e = true := by simpa using hscope
    obtain ⟨hle, hstart, hstop⟩ := inScope_iff.mp hscope
    split at h
    next hcut =>
      refine ⟨_, _, (Option.some.inj h).symm, .splitsCharacter hle hstart hstop ?_⟩
      simpa [onBoundaries, Bool.and_eq_false_iff] using hcut
    next hcut =>
      have hwithin := within_scope_iff.mpr ⟨hscope, by simpa using hcut⟩
      obtain ⟨a, ha, rfl⟩ := Option.map_eq_some_iff.mp h
      obtain ⟨hconflict, older, newer, hedits, holder⟩ := List.find?_eq_some_iff_append.mp ha
      exact ⟨_, _, rfl, .conflict hwithin hedits (fun b hb => by simpa using holder b hb) hconflict⟩

/-- **Admission, one submission.** `submit` adds an edit that `Admits` takes to the accepted ones, and
    keeps everything else. Otherwise it only adds a refusal, with a cause that `Objects` to the edit. -/
theorem submit_admission (d : Draft) (e : Edit) :
    (d.Admits e ∧ d.submit e = { d with edits := d.edits ++ [e] } ∧
        d.event e = .accepted e.start e.stop e.replacement.size) ∨
      (¬ d.Admits e ∧ ∃ cause context, d.Objects e cause ∧
        d.submit e = { d with refusals := d.refusals ++ [d.refusal e cause context] } ∧
        (d.submit e).digest? = d.digest? ∧
        d.event e = .refused (d.refusal e cause context)) := by
  cases hjudge : d.judge? e with
  | none =>
      refine .inl ⟨admits_iff.mpr hjudge, submit_of_judge?_eq_none hjudge, ?_⟩
      rw [event, hjudge]
  | some r =>
      obtain ⟨cause, context, rfl, hobjects⟩ := objects_of_judge? hjudge
      have hsubmit := submit_of_judge?_eq_some hjudge
      refine .inr ⟨not_admits_of_objects hobjects, cause, context, hobjects, hsubmit, ?_, ?_⟩
      · rw [hsubmit]
        rfl
      · rw [event, hjudge]

/-- `submitAll` drops no edit: each ends up in `edits` or has its entry in `refusals`. By induction,
    `submit` adding to one of the two. -/
theorem length_submitAll (d : Draft) (edits : List Edit) :
    (d.submitAll edits).edits.length + (d.submitAll edits).refusals.length
      = d.edits.length + d.refusals.length + edits.length := by
  unfold submitAll
  induction edits generalizing d with
  | nil => rfl
  | cons e rest ih =>
      rw [List.foldl_cons, ih, List.length_cons]
      rcases submit_admission d e with ⟨-, h, -⟩ | ⟨-, cause, context, -, h, -⟩
      · simp only [h, List.length_append, List.length_singleton]
        omega
      · simp only [h, List.length_append, List.length_singleton]
        omega

/-- **Admission.** Every draft that `submitAll` leads to is `Coherent`, as `Coherent.submitAll` carries it
    along, and counts all submissions (`length_submitAll`). So what `submit_admission` says of the next
    submission describes the greedy choice in full: `Admits` decides, and a refusal names the first cause
    that `Objects`. -/
theorem submitAll_admission (t : Text) (start stop : Nat) (edits : List Edit) :
    let d := (ofWindow t start stop).submitAll edits
    d.text = t ∧ d.Coherent ∧ d.scope.stop ≤ t.size ∧
      d.edits.length + d.refusals.length = edits.length ∧
      ∀ e : Edit,
        (d.Admits e ∧ d.submit e = { d with edits := d.edits ++ [e] } ∧
            d.event e = .accepted e.start e.stop e.replacement.size) ∨
          (¬ d.Admits e ∧ ∃ cause context, d.Objects e cause ∧
            d.submit e = { d with refusals := d.refusals ++ [d.refusal e cause context] } ∧
            (d.submit e).digest? = d.digest? ∧
            d.event e = .refused (d.refusal e cause context)) := by
  intro d
  have htext : d.text = t := text_submitAll _ edits
  have hcoherent : d.Coherent := (coherent_ofWindow t start stop).submitAll edits
  have hsize : d.scope.stop ≤ t.size := by
    rw [← htext]
    exact Text.le_size_of_isBoundary hcoherent.scope_stop_boundary
  have hcount : d.edits.length + d.refusals.length = edits.length := by
    simpa using length_submitAll (ofWindow t start stop) edits
  exact ⟨htext, hcoherent, hsize, hcount, submit_admission d⟩

end Graft.Draft
