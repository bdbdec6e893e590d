import Graft.Edit

/-!
# `Graft.Proofs.Draft.Order` — edits in order

Edits are ordered by their ranges. `Edit.Ordered edits sorted` says what that order is without saying
how it is made: `sorted` never goes back, and for every range it holds the same edits in the same
sequence as `edits`. `Edit.inOrder` makes such a list (`ordered_inOrder`).

Edits that claim none of the same text and stand in order do more than not overlap: each ends before
the next one starts (`stop_le_start`). Two edits at one place can only be two insertions, or an
insertion and a replacement that starts there.
-/

namespace Graft

namespace Span

theorem overlaps_iff {a b : Span} :
    a.overlaps b = true ↔ b.start < a.stop ∧ a.start < b.stop := by
  simp [overlaps]

theorem isEmpty_eq_false_iff {s : Span} : s.isEmpty = false ↔ s.start < s.stop := by
  rw [isEmpty, decide_eq_false_iff_not, length]
  omega

theorem contains_iff_le {a b : Span} :
    a.contains b = true ↔ a.start ≤ b.start ∧ b.stop ≤ a.stop := by
  simp [contains]

end Span

namespace Edit

/-! ## The order of ranges -/

theorem notAfter_iff {a b : Edit} :
    a.notAfter b = true ↔ a.start < b.start ∨ (a.start = b.start ∧ a.stop ≤ b.stop) := by
  simp [notAfter]

theorem notAfter_trans {a b c : Edit} (h : a.notAfter b = true) (h' : b.notAfter c = true) :
    a.notAfter c = true := by
  rw [notAfter_iff] at *
  omega

/-- `notAfter` is total, as an order that edits are put in has to be. -/
theorem notAfter_of_not {a b : Edit} (h : ¬ a.notAfter b = true) : b.notAfter a = true := by
  rw [notAfter_iff] at *
  omega

/-- `notAfter` compares ranges only, so edits with one `span` may stand in either order. -/
theorem span_ne_of_not_notAfter {a b : Edit} (h : ¬ a.notAfter b = true) : a.span ≠ b.span := by
  intro he
  rw [notAfter_iff] at h
  simp only [span, Span.mk.injEq] at he
  omega

/-- The edits in the order of their ranges, those with one range in the given sequence. -/
def Ordered (edits sorted : List Edit) : Prop :=
  sorted.Pairwise (·.notAfter · = true) ∧
    ∀ s : Span, sorted.filter (·.span = s) = edits.filter (·.span = s)

theorem mem_place {e x : Edit} {edits : List Edit} : x ∈ place e edits ↔ x = e ∨ x ∈ edits := by
  induction edits with
  | nil => simp [place]
  | cons y rest ih =>
      unfold place
      split
      · rw [List.mem_cons, ih, List.mem_cons]
        exact or_left_comm
      · rw [List.mem_cons]

theorem pairwise_place {e : Edit} {edits : List Edit}
    (h : edits.Pairwise (·.notAfter · = true)) :
    (place e edits).Pairwise (·.notAfter · = true) := by
  induction edits with
  | nil => simp [place]
  | cons x rest ih =>
      obtain ⟨hx, hrest⟩ := List.pairwise_cons.mp h
      unfold place
      split
      next hxe =>
        refine List.pairwise_cons.mpr ⟨fun y hy => ?_, ih hrest⟩
        rcases mem_place.mp hy with rfl | hy
        · exact hxe
        · exact hx y hy
      next hxe =>
        have hex := notAfter_of_not hxe
        refine List.pairwise_cons.mpr ⟨fun y hy => ?_, h⟩
        rcases List.mem_cons.mp hy with rfl | hy
        · exact hex
        · exact notAfter_trans hex (hx y hy)

/-- `place` is stable: an edit goes behind the ones that have its `span` already. -/
theorem filter_place {e : Edit} {edits : List Edit} (h : edits.Pairwise (·.notAfter · = true))
    (s : Span) :
    (place e edits).filter (·.span = s) = (edits ++ [e]).filter (·.span = s) := by
  induction edits with
  | nil => rfl
  | cons x rest ih =>
      obtain ⟨hx, hrest⟩ := List.pairwise_cons.mp h
      unfold place
      split
      · rw [List.cons_append, List.filter_cons, List.filter_cons, ih hrest]
      next hxe =>
        -- from `x` on, no edit has the range of `e`
        have hlater : ∀ y ∈ x :: rest, y.span ≠ e.span := by
          intro y hy
          refine span_ne_of_not_notAfter fun hye => hxe ?_
          rcases List.mem_cons.mp hy with rfl | hy
          · exact hye
          · exact notAfter_trans (hx y hy) hye
        rw [List.filter_append, List.filter_cons]
        by_cases hs : e.span = s
        · have hnil : (x :: rest).filter (·.span = s) = [] := by
            rw [List.filter_eq_nil_iff]
            intro y hy
            simpa [← hs] using hlater y hy
          simp [hs, hnil]
        · simp [hs]

/-- Edits are put in their places one by one. By induction on those that are left. -/
theorem ordered_foldl_place {edits sorted done : List Edit} (h : Ordered done sorted) :
    Ordered (done ++ edits) (edits.foldl (fun sorted e => place e sorted) sorted) := by
  induction edits generalizing sorted done with
  | nil => simpa using h
  | cons e rest ih =>
      have hstep : Ordered (done ++ [e]) (place e sorted) := by
        refine ⟨pairwise_place h.1, fun s => ?_⟩
        rw [filter_place h.1, List.filter_append, List.filter_append, h.2]
      simpa using ih hstep

/-- `inOrder` is a stable sort: in order, and edits with equal ranges as they were submitted. -/
theorem ordered_inOrder (edits : List Edit) : Ordered edits (inOrder edits) := by
  have h : Ordered [] [] := ⟨.nil, fun _ => rfl⟩
  exact ordered_foldl_place h

/-- An `Ordered` list holds what the other one holds: both have the same edits of each `span`. -/
theorem Ordered.perm {edits sorted : List Edit} (h : Ordered edits sorted) :
    sorted.Perm edits := by
  refine List.perm_iff_count.mpr fun e => ?_
  have hcount : ∀ l : List Edit, (l.filter (·.span = e.span)).count e = l.count e :=
    fun l => List.count_filter (by simp)
  rw [← hcount sorted, h.2, hcount]

theorem place_of_notAfter {e : Edit} {sorted : List Edit}
    (h : ∀ x ∈ sorted, x.notAfter e = true) : place e sorted = sorted ++ [e] := by
  induction sorted with
  | nil => rfl
  | cons x rest ih =>
      rw [place, if_pos (h x (List.mem_cons_self ..)),
        ih fun y hy => h y (List.mem_cons_of_mem _ hy)]
      rfl

/-- `inOrder` leaves a list alone that `notAfter` has in order already. -/
theorem inOrder_of_pairwise {edits : List Edit} (h : edits.Pairwise (·.notAfter · = true)) :
    inOrder edits = edits := by
  -- `done` holds the edits that have been put in order so far
  have hfold : ∀ done : List Edit, (done ++ edits).Pairwise (·.notAfter · = true) →
      edits.foldl (fun sorted e => place e sorted) done = done ++ edits := by
    induction edits with
    | nil => simp
    | cons e rest ih =>
        intro done hdone
        have hlast : ∀ x ∈ done, x.notAfter e = true := fun x hx =>
          (List.pairwise_append.mp hdone).2.2 x hx e (List.mem_cons_self ..)
        rw [List.foldl_cons, place_of_notAfter hlast]
        have := ih (List.pairwise_cons.mp h).2 (done ++ [e]) (by simpa using hdone)
        simpa using this
  exact hfold [] h

/-! ## Edits between others -/

variable {before after : List Edit}

/-- `place` of an edit that stands after `before` and in front of `after` looks at neither. -/
theorem place_between {e : Edit} (between : List Edit) (hbefore : ∀ x ∈ before, x.notAfter e = true)
    (hafter : ∀ x ∈ after, ¬ x.notAfter e = true) :
    place e (before ++ (between ++ after)) = before ++ (place e between ++ after) := by
  induction before with
  | nil =>
      rw [List.nil_append, List.nil_append]
      induction between with
      | nil =>
          cases after with
          | nil => rfl
          | cons x rest =>
              show place e (x :: rest) = e :: x :: rest
              rw [place, if_neg (hafter x (List.mem_cons_self ..))]
      | cons x rest ih =>
          rw [List.cons_append, place, place, ih]
          split <;> rfl
  | cons x rest ih =>
      rw [List.cons_append, place, if_pos (hbefore x (List.mem_cons_self ..)),
        ih fun y hy => hbefore y (List.mem_cons_of_mem _ hy)]
      rfl

/-- `inOrder` of edits that all stand between `before` and `after`: they are put in order among
    themselves. By `place_between` at each of them. -/
theorem inOrder_between {edits inner : List Edit} (h : inOrder edits = before ++ after)
    (hbefore : ∀ x ∈ before, ∀ e ∈ inner, x.notAfter e = true)
    (hafter : ∀ x ∈ after, ∀ e ∈ inner, ¬ x.notAfter e = true) :
    inOrder (edits ++ inner) = before ++ (inOrder inner ++ after) := by
  -- `done` holds the inner edits that have been put in order so far
  have hfold : ∀ done : List Edit,
      inner.foldl (fun sorted e => place e sorted) (before ++ (done ++ after))
        = before ++ (inner.foldl (fun sorted e => place e sorted) done ++ after) := by
    induction inner with
    | nil => simp
    | cons e rest ih =>
        intro done
        rw [List.foldl_cons, List.foldl_cons,
          place_between done (fun x hx => hbefore x hx e (List.mem_cons_self ..))
            fun x hx => hafter x hx e (List.mem_cons_self ..)]
        exact ih (fun x hx f hf => hbefore x hx f (List.mem_cons_of_mem _ hf))
          (fun x hx f hf => hafter x hx f (List.mem_cons_of_mem _ hf)) _
  have hnone := hfold []
  rw [List.nil_append] at hnone
  rw [inOrder] at h
  rw [inOrder, List.foldl_append, h, hnone]
  rfl

/-! ## Conflicts -/

theorem conflictsWith_iff {a b : Edit} :
    a.conflictsWith b = true ↔
      (b.start < a.stop ∧ a.start < b.stop) ∨
        (a.start = b.start ∧ a.stop = b.stop ∧ a.start < a.stop) := by
  rw [conflictsWith, Bool.or_eq_true, Bool.and_eq_true, Bool.not_eq_true', Span.overlaps_iff,
    Span.isEmpty_eq_false_iff, decide_eq_true_eq]
  simp only [span, Span.mk.injEq, and_assoc]

theorem conflictsWith_comm (a b : Edit) : a.conflictsWith b = b.conflictsWith a := by
  rw [Bool.eq_iff_iff, conflictsWith_iff, conflictsWith_iff]
  omega

/-- Of two edits in order that do not `conflictsWith`, the first ends before the second starts. Otherwise
    the second would start within the first and overlap it, or would have its range. -/
theorem stop_le_start {a b : Edit} (h : a.notAfter b = true) (hc : ¬ a.conflictsWith b = true)
    (hb : b.start ≤ b.stop) : a.stop ≤ b.start := by
  rw [notAfter_iff] at h
  rw [conflictsWith_iff] at hc
  omega

/-- The converse of `stop_le_start`, which needs no order. -/
theorem not_conflictsWith_of_le {a b : Edit} (h : a.stop ≤ b.start) (hb : b.start ≤ b.stop) :
    ¬ a.conflictsWith b = true := by
  rw [conflictsWith_iff]
  omega

end Edit

end Graft
