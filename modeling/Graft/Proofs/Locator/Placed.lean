import Graft.Locator
import Graft.Proofs.Rule
import Graft.Proofs.Text.Lines

/-!
# `Graft.Proofs.Locator.Placed` — where constructs lie

What a locator finds at a place where the text can be cut starts no earlier than there and ends within
the limit, with cuts at both ends (`Locator.placed_of_locateWithin`). For a line that is what its
element says. For a block it is what the header says about the start; the end is the end of a line or
of a character somewhere behind the header.

Only the recogniser of a locator can cut a search short (`Locator.error_of_locateWithin`).
-/

namespace Graft

/-- A construct between two positions, with cuts of the text at both of its ends. -/
structure Block.Placed (t : Text) (lo hi : Nat) (b : Block) : Prop where
  le_span : lo ≤ b.span.start
  span_le : b.span.start ≤ b.start
  start_le_stop : b.start ≤ b.stop
  stop_le : b.stop ≤ hi
  start_boundary : t.isBoundary b.start = true
  stop_boundary : t.isBoundary b.stop = true

namespace Locator

variable {t : Text} {pos headerEnd limit stop : Nat}

/-! ## The end of a block -/

/-- What `closingLine` finds is one of the lines, and ends within the limit. -/
theorem exists_of_closingLine {indentation marker : Text} {start found : Nat} {lines : List Text}
    (h : (closingLine indentation marker limit start lines).result = .ok (some (found, stop))) :
    ∃ before line after, lines = before ++ line :: after ∧ start + Text.size before.flatten = found ∧
      found + Text.size line = stop ∧ stop ≤ limit := by
  induction lines generalizing start with
  | nil => cases h
  | cons candidate rest ih =>
      unfold closingLine at h
      dsimp only at h
      split at h
      · cases h
      next hlimit =>
        split at h
        · obtain ⟨rfl, rfl⟩ := Prod.mk.inj (Option.some.inj (Except.ok.inj h))
          exact ⟨[], candidate, rest, rfl, rfl, rfl, Nat.le_of_not_lt hlimit⟩
        split at h
        · cases h
        · obtain ⟨before, line, after, rfl, hfound, hstop, hle⟩ := ih h
          refine ⟨candidate :: before, line, after, rfl, ?_, hstop, hle⟩
          rw [List.flatten_cons, Text.size_append, ← Nat.add_assoc]
          exact hfound

/-- The search for a closing line never halts. By induction on the lines that are left. -/
theorem exists_ok_closingLine (indentation marker : Text) (limit start : Nat) (lines : List Text) :
    ∃ found, (closingLine indentation marker limit start lines).result = .ok found := by
  induction lines generalizing start with
  | nil => exact ⟨none, rfl⟩
  | cons candidate rest ih =>
      unfold closingLine
      dsimp only
      split
      · exact ⟨none, rfl⟩
      split
      · exact ⟨some _, rfl⟩
      split
      · exact ⟨none, rfl⟩
      · exact ih _

/-- A block `closedByLine` ends with one of the lines behind its header, and so at a cut. -/
theorem within_of_closedByLine {marker indentation : Text} {interior : Span}
    (hheader : t.isBoundary headerEnd = true)
    (h : (closedByLine t marker indentation headerEnd limit).result = .ok (some (stop, interior))) :
    headerEnd ≤ stop ∧ stop ≤ limit ∧ t.isBoundary stop = true := by
  obtain ⟨hfirst, hb, -⟩ := Text.isLineStart_nextLineStartOrHere hheader
  obtain ⟨rest, hrest⟩ := Option.isSome_iff_exists.mp hb
  obtain ⟨closed, hclosed, h⟩ := Traced.result_bind_eq_ok_iff.mp h
  rcases closed with _ | ⟨found, last⟩
  · cases h
  obtain ⟨rfl, -⟩ := Prod.mk.inj (Option.some.inj (Except.ok.inj h))
  rw [hrest, Option.getD_some] at hclosed
  obtain ⟨before, line, after, hlines, hfound, hstop, hle⟩ := exists_of_closingLine hclosed
  -- the lines are cut out of the text itself, so the text can be cut behind each of them
  have hsplit : rest = (before.flatten ++ line) ++ after.flatten := by
    have := Text.flatten_lines rest
    rw [hlines] at this
    rw [← this]
    simp
  have hcut : t.isBoundary (t.nextLineStartOrHere headerEnd + Text.size (before.flatten ++ line))
      = true := by
    rw [Text.isBoundary_add hrest, hsplit]
    exact Text.isBoundary_size_append _ _
  have hsum : t.nextLineStartOrHere headerEnd + Text.size (before.flatten ++ line) = last := by
    rw [Text.size_append]
    omega
  exact ⟨by omega, hle, hsum ▸ hcut⟩

/-- The inversion of `terminated`, in terms of `FirstOccurrence`. -/
theorem firstOccurrence_of_terminated {c : Char} {interior : Span}
    (h : (terminated t c pos headerEnd limit).result = .ok (some (stop, interior))) :
    interior.start = headerEnd ∧ stop = interior.stop + c.utf8Size ∧
      t.containsBlankLine headerEnd interior.stop = false ∧
      ∃ before, t.FirstOccurrence c headerEnd limit interior.stop before := by
  unfold terminated at h
  split at h
  · cases h
  next offset hoffset =>
    obtain ⟨region, hregion, hfind⟩ := Option.bind_eq_some_iff.mp hoffset
    obtain ⟨before, after, hsplit, hplain, rfl⟩ := Text.find?_eq_some_iff.mp hfind
    have hfirst := (Text.firstOccurrence_iff hregion).mpr ⟨hplain, rfl, after, hsplit⟩
    dsimp only at h
    split at h
    · cases h
    next hblank =>
      obtain ⟨rfl, rfl⟩ := Prod.mk.inj (Option.some.inj (Except.ok.inj h))
      exact ⟨rfl, rfl, Bool.eq_false_iff.mpr hblank, before, hfirst⟩

/-- A terminator is found between the header and the limit, and ends at a cut. -/
theorem within_of_terminated {c : Char} {interior : Span}
    (h : (terminated t c pos headerEnd limit).result = .ok (some (stop, interior))) :
    headerEnd ≤ stop ∧ stop ≤ limit ∧ t.isBoundary stop = true := by
  obtain ⟨-, rfl, -, before, hfirst⟩ := firstOccurrence_of_terminated h
  obtain ⟨hle, -, -, hbehind⟩ := hfirst.cuts
  exact ⟨Nat.le_trans hle (Nat.le_add_right _ _), hfirst.le_limit, hbehind⟩

theorem within_of_ending {closing : Closing} {indentation : Text} {interior : Span}
    (hheader : t.isBoundary headerEnd = true)
    (h : (ending closing t indentation pos headerEnd limit).result = .ok (some (stop, interior))) :
    headerEnd ≤ stop ∧ stop ≤ limit ∧ t.isBoundary stop = true := by
  cases closing with
  | line marker => exact within_of_closedByLine hheader h
  | terminator c => exact within_of_terminated h

theorem exists_ok_closedByLine (t marker indentation : Text) (headerEnd limit : Nat) :
    ∃ found, (closedByLine t marker indentation headerEnd limit).result = .ok found := by
  obtain ⟨closed, hclosed⟩ := exists_ok_closingLine indentation marker limit
    (t.nextLineStartOrHere headerEnd) ((t.from? (t.nextLineStartOrHere headerEnd)).getD []).lines
  rcases closed with _ | ⟨found, stop⟩
  · exact ⟨none, Traced.result_bind_eq_ok_iff.mpr ⟨_, hclosed, rfl⟩⟩
  · exact ⟨some _, Traced.result_bind_eq_ok_iff.mpr ⟨_, hclosed, rfl⟩⟩

theorem exists_ok_terminated (t : Text) (c : Char) (pos headerEnd limit : Nat) :
    ∃ found, (terminated t c pos headerEnd limit).result = .ok found := by
  unfold terminated
  split
  · exact ⟨none, rfl⟩
  · dsimp only
    split
    · exact ⟨none, rfl⟩
    · exact ⟨some _, rfl⟩

/-- Neither way of closing a block can halt. -/
theorem exists_ok_ending (closing : Closing) (t indentation : Text) (pos headerEnd limit : Nat) :
    ∃ found, (ending closing t indentation pos headerEnd limit).result = .ok found := by
  cases closing with
  | line marker => exact exists_ok_closedByLine t marker indentation headerEnd limit
  | terminator c => exact exists_ok_terminated t c pos headerEnd limit

/-! ## Constructs at a position -/

/-- What a locator recognises: the header of a block, or a whole line. -/
def recognizer : Locator → Recognizer
  | block header _ _ => header
  | line construct _ => construct

/-- A block starts and ends at cuts, in order and within the limit, if its header is `Sound`. -/
theorem placed_of_blockWithin {header : Recognizer} {closing : Closing} {wanted : Option Text}
    {b : Block} (hheader : header.Sound) (hpos : t.isBoundary pos = true)
    (h : (blockWithin header closing wanted t pos limit).result = .ok (some b)) :
    b.Placed t pos limit := by
  obtain ⟨found, hfound, h⟩ := Traced.result_bind_eq_ok_iff.mp h
  rcases found with _ | e
  · cases h
  obtain ⟨hle, hsound⟩ := Recognizer.sound_of_boundary (hheader t pos _ hfound) hpos
  have hplaced := hsound.placed
  dsimp only at h
  split at h
  · cases h
  split at h
  · cases h
  obtain ⟨found, hending, h⟩ := Traced.result_bind_eq_ok_iff.mp h
  rcases found with _ | ⟨stop, interior⟩
  · cases h
  obtain rfl := Option.some.inj (Except.ok.inj h)
  have hend := within_of_ending hplaced.span_stop_boundary hending
  have hstart : e.start ≤ e.span.stop := hplaced.start_le_span_stop
  exact ⟨Nat.le_refl _, Nat.le_trans hle hplaced.span_start_le, Nat.le_trans hstart hend.1, hend.2.1,
    hplaced.start_boundary, hend.2.2⟩

/-- The same of a block that is a line. -/
theorem placed_of_lineWithin {construct : Recognizer} {wanted : Option Text} {b : Block}
    (hconstruct : construct.Sound) (hpos : t.isBoundary pos = true)
    (h : (lineWithin construct wanted t pos limit).result = .ok (some b)) :
    b.Placed t pos limit := by
  obtain ⟨found, hfound, h⟩ := Traced.result_bind_eq_ok_iff.mp h
  rcases found with _ | e
  · cases h
  obtain ⟨hle, hsound⟩ := Recognizer.sound_of_boundary (hconstruct t pos _ hfound) hpos
  have hplaced := hsound.placed
  dsimp only at h
  split at h
  · cases h
  next hcheck =>
    have hlimit : e.span.stop ≤ limit := by
      simp only [Bool.or_eq_true, not_or, decide_eq_true_eq] at hcheck
      exact Nat.le_of_not_lt hcheck.1.1
    split at h
    · cases h
    obtain rfl := Option.some.inj (Except.ok.inj h)
    exact ⟨hle, hplaced.span_start_le, hplaced.start_le_stop,
      Nat.le_trans hplaced.stop_le_span hlimit, hplaced.start_boundary, hplaced.stop_boundary⟩

/-- At a cut of the text `locateWithin` finds what is `Placed` between there and the limit. -/
theorem placed_of_locateWithin {l : Locator} {b : Block} (hl : l.recognizer.Sound)
    (hpos : t.isBoundary pos = true)
    (h : (l.locateWithin t pos limit).result = .ok (some b)) :
    b.Placed t pos (min limit t.size) := by
  unfold locateWithin at h
  dsimp only at h
  split at h
  · cases l with
    | block header closing wanted => exact placed_of_blockWithin hl hpos h
    | line construct wanted => exact placed_of_lineWithin hl hpos h
  · cases h

/-! ## Searches that are cut short -/

/-- `locateWithin` halts only where the recogniser of the locator does, since `exists_ok_ending`. -/
theorem error_of_locateWithin {l : Locator} {halt : Halt}
    (h : (l.locateWithin t pos limit).result = .error halt) :
    (l.recognizer t pos).result = .error halt := by
  unfold locateWithin at h
  dsimp only at h
  split at h
  next =>
    cases l with
    | block header closing wanted =>
        rcases Traced.result_bind_eq_error_iff.mp h with h | ⟨found, -, h⟩
        · exact h
        rcases found with _ | e
        · cases h
        dsimp only at h
        split at h
        · cases h
        split at h
        · cases h
        rcases Traced.result_bind_eq_error_iff.mp h with h | ⟨found, -, h⟩
        · obtain ⟨found, hok⟩ := exists_ok_ending closing t (lineIndentation t e.start) pos
            e.span.stop (min limit t.size)
          cases hok.symm.trans h
        · rcases found with _ | ⟨stop, interior⟩ <;> cases h
    | line construct wanted =>
        rcases Traced.result_bind_eq_error_iff.mp h with h | ⟨found, -, h⟩
        · exact h
        rcases found with _ | e
        · cases h
        dsimp only at h
        split at h
        · cases h
        split at h
        · cases h
        · cases h
  · cases h

end Locator

end Graft
