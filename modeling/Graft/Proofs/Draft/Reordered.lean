import Graft.Proofs.Draft.Digest

/-!
# `Graft.Proofs.Draft.Reordered` — edits in another order

Edits of a window that cut no character and claim none of the same text are accepted in whatever order
they come, and the digest does not tell in which they came (`Draft.digest?_reordered`). Only insertions
at one position have to keep their order among themselves: they are all that the order of ranges leaves
open, because two edits with one range that is not empty conflict.

Ordered edits are told by the edits of each range (`Edit.Ordered.unique`), and those are the same for both
orders of submission (`Edit.filter_eq_of_perm`).
-/

namespace Graft

namespace Edit

variable {edits edits' sorted sorted' : List Edit}

/-- `notAfter` both ways means one `span`: it is antisymmetric on ranges. -/
theorem span_eq_of_notAfter {a b : Edit} (h : a.notAfter b = true) (h' : b.notAfter a = true) :
    a.span = b.span := by
  rw [notAfter_iff] at h h'
  rw [span, span, Span.mk.injEq]
  omega

/-- The head of a list that is in order stands `notAfter` any of its members. -/
theorem notAfter_of_mem {x y : Edit} (h : (x :: sorted).Pairwise (·.notAfter · = true))
    (hy : y ∈ x :: sorted) : x.notAfter y = true := by
  rcases List.mem_cons.mp hy with rfl | hy
  · rw [notAfter_iff]
    omega
  · exact (List.pairwise_cons.mp h).1 y hy

/-- `Ordered` determines the list: the heads of two such lists have one `span`, and `filter` on this span
    begins with both of them. -/
theorem Ordered.unique (h : Ordered edits sorted) (h' : Ordered edits sorted') :
    sorted = sorted' := by
  obtain ⟨hsorted, hfilter⟩ := h
  obtain ⟨hsorted', hfilter'⟩ := h'
  have hsame (s : Span) : sorted.filter (·.span = s) = sorted'.filter (·.span = s) :=
    (hfilter s).trans (hfilter' s).symm
  clear hfilter hfilter'
  have hmem (l l' : List Edit) (hsame : ∀ s : Span, l.filter (·.span = s) = l'.filter (·.span = s))
      (x : Edit) (hx : x ∈ l) : x ∈ l' := by
    have hfound : x ∈ l.filter (·.span = x.span) := List.mem_filter.mpr ⟨hx, by simp⟩
    rw [hsame] at hfound
    exact (List.mem_filter.mp hfound).1
  induction sorted generalizing sorted' with
  | nil =>
      cases sorted' with
      | nil => rfl
      | cons y rest' =>
          have hy := hmem _ [] (fun s => (hsame s).symm) y (List.mem_cons_self ..)
          cases hy
  | cons x rest ih =>
      cases sorted' with
      | nil =>
          have hx := hmem _ [] hsame x (List.mem_cons_self ..)
          cases hx
      | cons y rest' =>
          -- each of the two first edits may stand before the other
          have hxy := notAfter_of_mem hsorted
            (hmem _ _ (fun s => (hsame s).symm) y (List.mem_cons_self ..))
          have hyx := notAfter_of_mem hsorted' (hmem _ _ hsame x (List.mem_cons_self ..))
          have hspan : x.span = y.span := span_eq_of_notAfter hxy hyx
          have hfirst := hsame x.span
          rw [List.filter_cons_of_pos (by simp), List.filter_cons_of_pos (by simp [hspan])] at hfirst
          obtain ⟨rfl, -⟩ := List.cons.inj hfirst
          have hrest : rest = rest' := by
            refine ih (List.pairwise_cons.mp hsorted).2 (List.pairwise_cons.mp hsorted').2 fun s => ?_
            have := hsame s
            rw [List.filter_cons, List.filter_cons] at this
            split at this
            · exact (List.cons.inj this).2
            · exact this
          rw [hrest]

/-- A `span` that is not empty is the range of at most one edit, since two with the same one would
    conflict. -/
theorem length_filter_le_one (hapart : edits.Pairwise (¬ ·.conflictsWith · = true)) {s : Span}
    (hs : s.start < s.stop) : (edits.filter (·.span = s)).length ≤ 1 := by
  have hpairwise := hapart.filter (fun e : Edit => e.span = s)
  cases hfound : edits.filter (·.span = s) with
  | nil => simp
  | cons a rest =>
      cases rest with
      | nil => simp
      | cons b rest =>
          have hspan : ∀ e ∈ a :: b :: rest, e.span = s := by
            intro e he
            rw [← hfound] at he
            simpa using (List.mem_filter.mp he).2
          have ha := hspan a (by simp)
          have hb := hspan b (by simp)
          subst ha
          rw [hfound] at hpairwise
          refine absurd ?_ ((List.pairwise_cons.mp hpairwise).1 b (by simp))
          rw [conflictsWith_iff]
          simp only [span, Span.mk.injEq] at hb hs
          omega

/-- What `Ordered.unique` asks of two orders of submission. `length_filter_le_one` settles the ranges that
    are not empty, and the hypothesis on insertions the empty ones. -/
theorem filter_eq_of_perm (hperm : edits.Perm edits') (hle : ∀ e ∈ edits, e.start ≤ e.stop)
    (hapart : edits.Pairwise (¬ ·.conflictsWith · = true))
    (hinsertions : ∀ p, edits.filter (·.span = ⟨p, p⟩) = edits'.filter (·.span = ⟨p, p⟩))
    (s : Span) : edits.filter (·.span = s) = edits'.filter (·.span = s) := by
  have hfilter : (edits.filter (·.span = s)).Perm (edits'.filter (·.span = s)) := hperm.filter _
  obtain ⟨start, stop⟩ := s
  rcases Nat.lt_trichotomy start stop with hlt | rfl | hgt
  · -- there is at most one, and so nothing to be put in order
    have hone := length_filter_le_one hapart (s := ⟨start, stop⟩) hlt
    rcases hfound : edits.filter (·.span = ⟨start, stop⟩) with _ | ⟨a, _ | ⟨b, rest⟩⟩
    · rw [hfound] at hfilter
      exact hfound.trans (List.Perm.nil_eq hfilter)
    · rw [hfound] at hfilter
      exact hfound.trans (List.perm_singleton.mp hfilter.symm).symm
    · rw [hfound] at hone
      simp at hone
  · exact hinsertions start
  · have hnone : edits.filter (·.span = ⟨start, stop⟩) = [] := by
      refine List.filter_eq_nil_iff.mpr fun e he hspan => ?_
      have := hle e he
      simp only [span, decide_eq_true_eq, Span.mk.injEq] at hspan
      omega
    rw [hnone] at hfilter ⊢
    exact List.Perm.nil_eq hfilter

end Edit

namespace Draft

/-- **Order does not matter.** `submitAll` in two orders, of edits that lie `Within` the scope, do not
    conflict and agree on the order of insertions at each position. All are accepted both times
    (`submitAll_of_apart`), and `digest?` is the same, because `inOrder` makes the same list of both by
    `Ordered.unique`. -/
theorem digest?_reordered (t : Text) (start stop : Nat) {edits edits' : List Edit}
    (hperm : edits.Perm edits')
    (hwithin : ∀ e ∈ edits, e.span.Within t (ofWindow t start stop).scope.start
      (ofWindow t start stop).scope.stop)
    (hapart : edits.Pairwise (¬ ·.conflictsWith · = true))
    (hinsertions : ∀ p, edits.filter (·.span = ⟨p, p⟩) = edits'.filter (·.span = ⟨p, p⟩)) :
    let d := ofWindow t start stop
    d.submitAll edits = { d with edits := edits } ∧ d.submitAll edits' = { d with edits := edits' } ∧
      ∃ out, (d.submitAll edits).digest? = some out ∧ (d.submitAll edits').digest? = some out := by
  intro d
  have hapart' : edits'.Pairwise (¬ ·.conflictsWith · = true) := by
    refine hperm.pairwise hapart fun {a b} hab => ?_
    rwa [Edit.conflictsWith_comm]
  have hsubmit : d.submitAll edits = { d with edits := edits } :=
    submitAll_of_apart hwithin (by simp [d]) hapart
  have hsubmit' : d.submitAll edits' = { d with edits := edits' } :=
    submitAll_of_apart (fun e he => hwithin e (hperm.mem_iff.mpr he)) (by simp [d]) hapart'
  -- the edits come in the same order in the end
  have horder : Edit.inOrder edits = Edit.inOrder edits' := by
    have hordered := Edit.ordered_inOrder edits'
    have hfilter := Edit.filter_eq_of_perm hperm (fun e he => (hwithin e he).start_le_stop) hapart
      hinsertions
    exact (Edit.ordered_inOrder edits).unique
      ⟨hordered.1, fun s => (hordered.2 s).trans (hfilter s).symm⟩
  obtain ⟨out, hout, -⟩ := digest?_patched ((coherent_ofWindow t start stop).submitAll edits)
  refine ⟨hsubmit, hsubmit', out, hout, ?_⟩
  change (d.submitAll edits).digest? = some out at hout
  rw [hsubmit, digest?] at hout
  rw [hsubmit', digest?, ← hout]
  dsimp only
  rw [horder]

/-- `digest?_reordered` for two insertions at one position, one at the start of the window, and a
    replacement. -/
theorem digest?_reordered_insertions : ∃ out,
    ((ofWindow ['a', 'é', 'b'] 0 9).submitAll
        [⟨1, 3, ['e']⟩, ⟨3, 3, ['x']⟩, ⟨0, 0, ['<']⟩, ⟨3, 3, ['y']⟩]).digest? = some out ∧
      ((ofWindow ['a', 'é', 'b'] 0 9).submitAll
        [⟨3, 3, ['x']⟩, ⟨3, 3, ['y']⟩, ⟨0, 0, ['<']⟩, ⟨1, 3, ['e']⟩]).digest? = some out := by
  have hboth := @digest?_reordered ['a', 'é', 'b'] 0 9
    [⟨1, 3, ['e']⟩, ⟨3, 3, ['x']⟩, ⟨0, 0, ['<']⟩, ⟨3, 3, ['y']⟩]
    [⟨3, 3, ['x']⟩, ⟨3, 3, ['y']⟩, ⟨0, 0, ['<']⟩, ⟨1, 3, ['e']⟩] (by decide)
    (by
      intro e he
      simp only [List.mem_cons, List.not_mem_nil, or_false] at he
      rcases he with rfl | rfl | rfl | rfl
      all_goals exact ⟨by decide, by decide, by decide, by decide, by decide⟩)
    (by decide)
    (by
      intro p
      by_cases h0 : p = 0
      · subst h0
        rfl
      by_cases h3 : p = 3
      · subst h3
        rfl
      simp [Edit.span, Ne.symm h0, Ne.symm h3])
  exact hboth.2.2

end Draft

end Graft
