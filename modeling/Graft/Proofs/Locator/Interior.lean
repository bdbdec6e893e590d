import Graft.Proofs.Locator.Scan

/-!
# `Graft.Proofs.Locator.Interior` — the inside of a block

A block has an interior, which lies between its start and its end and can be cut out of the text
(`Locator.Scanned.exists_interior`). It starts where the header ends, or with the newline of the line
on which the header ends; it ends where what closes the block starts.
-/

namespace Graft

namespace Locator

variable {t : Text} {pos headerEnd limit stop : Nat}

/-! ## The end of a block -/

/-- The interior of `closedByLine` begins where the header ends or where its line ends, in any case in
    front of `nextLineStartOrHere`. -/
theorem le_inside {inside : Nat} (hheader : t.isBoundary headerEnd = true)
    (h : (if t.nextLineStartOrHere headerEnd = headerEnd then headerEnd else t.lineEnd headerEnd)
      = inside) :
    headerEnd ≤ inside ∧ inside ≤ t.nextLineStartOrHere headerEnd ∧ t.isBoundary inside = true := by
  split at h
  next hhere =>
    subst h
    exact ⟨Nat.le_refl _, Nat.le_of_eq hhere.symm, hheader⟩
  next hne =>
    subst h
    have hnext : t.nextLineStartOrHere headerEnd = t.nextLineStart headerEnd := by
      unfold Text.nextLineStartOrHere at hne ⊢
      split
      next hline =>
        rw [if_pos hline] at hne
        exact absurd rfl hne
      next => rfl
    obtain ⟨hle, hend, hbefore⟩ := Text.isBoundary_lineEnd hheader
    exact ⟨hle, hnext ▸ hbefore, hend⟩

/-- The interior that `closedByLine` makes lies `Within` the block. -/
theorem interior_of_closedByLine {marker indentation : Text} {interior : Span}
    (hheader : t.isBoundary headerEnd = true)
    (h : (closedByLine t marker indentation headerEnd limit).result = .ok (some (stop, interior))) :
    interior.Within t headerEnd stop := by
  obtain ⟨-, hb, -⟩ := Text.isLineStart_nextLineStartOrHere hheader
  obtain ⟨rest, hrest⟩ := Option.isSome_iff_exists.mp hb
  obtain ⟨closed, hclosed, h⟩ := Traced.result_bind_eq_ok_iff.mp h
  rcases closed with _ | ⟨found, last⟩
  · cases h
  obtain ⟨rfl, rfl⟩ := Prod.mk.inj (Option.some.inj (Except.ok.inj h))
  rw [hrest, Option.getD_some] at hclosed
  obtain ⟨before, line, after, hlines, hfound, hstop, -⟩ := exists_of_closingLine hclosed
  have hsplit : rest = before.flatten ++ (line :: after).flatten := by
    rw [← List.flatten_append, ← hlines, Text.flatten_lines]
  have hcut : t.isBoundary found = true := by
    rw [← hfound, Text.isBoundary_add hrest, hsplit]
    exact Text.isBoundary_size_append _ _
  obtain ⟨hle, hbefore, hinside⟩ := le_inside hheader rfl
  have hfirst : t.nextLineStartOrHere headerEnd ≤ found := hfound ▸ Nat.le_add_right _ _
  have hlast : found ≤ last := hstop ▸ Nat.le_add_right _ _
  exact ⟨hle, Nat.le_trans hbefore hfirst, hlast, hinside, hcut⟩

/-- So does the one that `terminated` makes, in front of the `FirstOccurrence`. -/
theorem interior_of_terminated {c : Char} {interior : Span}
    (h : (terminated t c pos headerEnd limit).result = .ok (some (stop, interior))) :
    interior.Within t headerEnd stop := by
  obtain ⟨hstart, rfl, -, before, hfirst⟩ := firstOccurrence_of_terminated h
  obtain ⟨hle, hheader, hcut, -⟩ := hfirst.cuts
  rw [← hstart] at hle hheader
  exact ⟨Nat.le_of_eq hstart.symm, hle, Nat.le_add_right _ _, hheader, hcut⟩

/-- Either way of closing a block leaves an interior between the header and the end. -/
theorem interior_of_ending {closing : Closing} {indentation : Text} {interior : Span}
    (hheader : t.isBoundary headerEnd = true)
    (h : (ending closing t indentation pos headerEnd limit).result = .ok (some (stop, interior))) :
    interior.Within t headerEnd stop := by
  cases closing with
  | line marker => exact interior_of_closedByLine hheader h
  | terminator c => exact interior_of_terminated h

/-! ## Blocks -/

theorem interior_of_blockWithin {header : Recognizer} {closing : Closing} {wanted : Option Text}
    {b : Block} (hheader : header.Sound) (hpos : t.isBoundary pos = true)
    (h : (blockWithin header closing wanted t pos limit).result = .ok (some b)) :
    ∃ i, b.interior? = some i ∧ i.Within t b.start b.stop := by
  obtain ⟨found, hfound, h⟩ := Traced.result_bind_eq_ok_iff.mp h
  rcases found with _ | e
  · cases h
  obtain ⟨-, hsound⟩ := Recognizer.sound_of_boundary (hheader t pos _ hfound) hpos
  have hplaced := hsound.placed
  dsimp only at h
  split at h
  · cases h
  split at h
  · cases h
  obtain ⟨found, hending, h⟩ := Traced.result_bind_eq_ok_iff.mp h
  rcases found with _ | ⟨stop, interior⟩
  · cases h
  obtain rfl := Option.some.inj (Except.ok.inj h)
  have hinterior := interior_of_ending hplaced.span_stop_boundary hending
  exact ⟨interior, rfl, hinterior.mono hplaced.start_le_span_stop (Nat.le_refl _)⟩

/-- The inversion of `Scanned` at one block: it was found by `locateWithin` at some cut of the text. -/
theorem Scanned.exists_hit {l : Locator} {blocks : List Block} (h : l.Scanned t stop pos blocks)
    (hl : l.recognizer.Sound) (hstop : stop ≤ t.size) (hpos : t.isBoundary pos = true) :
    ∀ b ∈ blocks, ∃ p, t.isBoundary p = true ∧ (l.locateWithin t p stop).result = .ok (some b) := by
  induction h with
  | done => simp
  | miss hlt _ _ ih =>
      obtain ⟨-, hcut, -⟩ := Text.isLineStart_nextLineStart hpos (Nat.lt_of_lt_of_le hlt hstop)
      exact ih hcut
  | @hit pos first _ hlt hsome _ ih =>
      obtain ⟨-, -, hcut, -⟩ := isLineStart_resume hpos (Nat.lt_of_lt_of_le hlt hstop)
        (placed_of_hit hl hstop hpos hsome)
      intro b hmem
      rcases List.mem_cons.mp hmem with rfl | hmem
      · exact ⟨pos, hpos, hsome⟩
      · exact ih hcut b hmem

/-- Every block that is `Scanned` has an interior, which lies `Within` it, by
    `interior_of_blockWithin`. -/
theorem Scanned.exists_interior {header : Recognizer} {closing : Closing} {wanted : Option Text}
    {blocks : List Block} (h : (Locator.block header closing wanted).Scanned t stop pos blocks)
    (hheader : header.Sound) (hstop : stop ≤ t.size) (hpos : t.isBoundary pos = true) :
    ∀ b ∈ blocks, ∃ i, b.interior? = some i ∧ i.Within t b.start b.stop := by
  intro b hb
  obtain ⟨p, hp, hfound⟩ := h.exists_hit hheader hstop hpos b hb
  unfold locateWithin at hfound
  dsimp only at hfound
  split at hfound
  · exact interior_of_blockWithin hheader hp hfound
  · cases hfound

end Locator

end Graft
