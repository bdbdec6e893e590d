import Graft.Proofs.Element.Shift

/-!
# `Graft.Proofs.Element.Range` — which positions make an element

Four positions make an element exactly if they are in order, the last of them is no greater than the size of
the text, and the text can be cut at each of them. The test compares less than that: once the content is in
order and the span covers it, the span is in order as well, and no position is past the end if its end is
not. The element then reports these positions and the text between them; where the test fails, it reports
nothing (`Extent.Reports`, `Extent.ReportsNothing`).

What the test reports is true of the positions that were tried (`RangeError.TrueOf`).
-/

namespace Graft

variable {t : Text} {start stop : Nat} {span : Span}

/-! ## Errors -/

/-- What an error says, of a text and of the positions that make no element of it. -/
def RangeError.TrueOf (t : Text) (b : Bounds) : RangeError → Prop
  | inverted start stop => start = b.start ∧ stop = b.stop ∧ stop < start
  | outOfBounds offset size => offset ∈ b.positions ∧ size = t.size ∧ size < offset
  | spanMismatch start stop span => b = ⟨start, stop, span⟩ ∧ ¬ (span.start ≤ start ∧ stop ≤ span.stop)
  | splitsCharacter offset => offset ∈ b.positions ∧
      ∃ (before : Text) (c : Char) (after : Text), t = before ++ c :: after ∧ before.size < offset ∧
        offset < before.size + c.utf8Size

/-- Every error of `Bounds.check` is `TrueOf` the positions that were tried. Where the text cannot be cut,
    the position lies inside a character, and `splitsCharacter` says in which. -/
theorem RangeError.trueOf_of_check {reason : RangeError}
    (h : Bounds.check t start stop span = .error reason) : reason.TrueOf t ⟨start, stop, span⟩ := by
  unfold Bounds.check at h
  split at h
  next hinverted =>
    obtain rfl := Except.error.inj h
    exact ⟨rfl, rfl, hinverted⟩
  next hordered =>
  split at h
  next hbeyond =>
    obtain rfl := Except.error.inj h
    refine ⟨?_, rfl, by omega⟩
    have hmax : max span.stop stop = span.stop ∨ max span.stop stop = stop := by omega
    rcases hmax with hmax | hmax <;> simp [Bounds.positions, hmax]
  next hwithin =>
  split at h
  next hmismatch =>
    obtain rfl := Except.error.inj h
    exact ⟨rfl, by omega⟩
  next hcovers =>
  dsimp only at h
  split at h
  next p hp =>
    -- all positions are in bounds by now, so what cannot be cut there is a character
    obtain rfl := Except.error.inj h
    have hmem : p ∈ (⟨start, stop, span⟩ : Bounds).positions := List.mem_of_find?_eq_some hp
    have hinside : t.isBoundary p = false := by simpa using List.find?_some hp
    have hsize : p ≤ t.size := by
      simp only [Bounds.positions, List.mem_cons, List.not_mem_nil, or_false] at hmem
      omega
    exact ⟨hmem, Text.exists_char_of_not_isBoundary hsize hinside⟩
  · cases h

namespace Bounds

/-- `Fits` with the bounds of the text written out: no position is past the end, because the last of them
    is a boundary. -/
theorem fits_iff {b : Bounds} :
    b.Fits t ↔ b.span.start ≤ b.start ∧ b.start ≤ b.stop ∧ b.stop ≤ b.span.stop ∧
      b.span.stop ≤ t.size ∧ ∀ p ∈ b.positions, t.isBoundary p = true := by
  constructor
  · intro h
    exact ⟨h.span_start_le, h.start_le_stop, h.stop_le_span,
      Text.le_size_of_isBoundary (h.boundary b.span.stop (by simp [positions])), h.boundary⟩
  · rintro ⟨hleft, hordered, hright, -, hcuts⟩
    exact ⟨hleft, hordered, hright, hcuts⟩

end Bounds

/-! ## Elements -/

/-- The text `m` is what stands between two positions. -/
def Text.Between (t : Text) (start stop : Nat) (m : Text) : Prop :=
  ∃ before after : Text, t = before ++ (m ++ after) ∧ before.size = start ∧ start + m.size = stop

namespace Extent

/-- An extent reports its positions and the text between them. -/
structure Reports (t : Text) (b : Bounds) (x : Extent) : Prop where
  start_eq : x.start = b.start
  stop_eq : x.stop = b.stop
  span_eq : x.span = b.span
  content : ∃ m, x.content? t = some m ∧ t.Between b.start b.stop m
  covered : ∃ m, x.covered? t = some m ∧ t.Between b.span.start b.span.stop m

/-- An extent reports no text, and zero for every position. -/
structure ReportsNothing (t : Text) (x : Extent) : Prop where
  start_eq : x.start = 0
  stop_eq : x.stop = 0
  span_eq : x.span = ⟨0, 0⟩
  content : x.content? t = none
  covered : x.covered? t = none

/-- Bounds that fit the text are what an element `Reports`. -/
theorem reports_of_fits {b : Bounds} (h : b.Fits t) : Reports t b ⟨some b⟩ := by
  have hplaced := placed_of_fits h
  have hslice : ∀ {p q : Nat}, p ≤ q → t.isBoundary p = true → t.isBoundary q = true →
      ∃ m, t.slice? p q = some m ∧ t.Between p q m := by
    intro p q hle hp hq
    obtain ⟨m, hm⟩ := Text.exists_slice? hle hp hq
    exact ⟨m, hm, Text.slice?_eq_some_iff.mp hm⟩
  exact ⟨rfl, rfl, rfl,
    hslice hplaced.start_le_stop hplaced.start_boundary hplaced.stop_boundary,
    hslice hplaced.span_start_le_stop hplaced.span_start_boundary hplaced.span_stop_boundary⟩

theorem reportsNothing_invalid (t : Text) : ReportsNothing t invalid :=
  ⟨rfl, rfl, rfl, rfl, rfl⟩

/-- **Ranges.** `Bounds.check` accepts any four positions just if they are in order, in bounds and cuts of
    the text, and `ofRange` makes a valid element in the same case. It then `Reports` these positions and
    the text between them. Otherwise it `ReportsNothing`, and the error is `TrueOf` the positions. -/
theorem ofRange_exact (t : Text) (start stop : Nat) (span : Span) :
    let fits := span.start ≤ start ∧ start ≤ stop ∧ stop ≤ span.stop ∧ span.stop ≤ t.size ∧
      ∀ p ∈ [span.start, start, stop, span.stop], t.isBoundary p = true
    ((∃ b, Bounds.check t start stop span = .ok b) ↔ fits) ∧
      ∃ x, (ofRange t start stop span).result = .ok x ∧ (x.isValid = true ↔ fits) ∧
        (x.isValid = true → Bounds.check t start stop span = .ok ⟨start, stop, span⟩ ∧
          x.Reports t ⟨start, stop, span⟩) ∧
        (x.isValid = false → x.ReportsNothing t ∧
          ∃ reason, Bounds.check t start stop span = .error reason ∧
            reason.TrueOf t ⟨start, stop, span⟩) := by
  intro fits
  have hiff : Bounds.Fits t ⟨start, stop, span⟩ ↔ fits := Bounds.fits_iff
  have hcheck : (∃ b, Bounds.check t start stop span = .ok b) ↔ fits := by
    rw [← hiff]
    constructor
    · rintro ⟨b, hb⟩
      obtain ⟨rfl, hfits⟩ := Bounds.check_eq_ok_iff.mp hb
      exact hfits
    · exact fun hfits => ⟨_, Bounds.check_eq_ok_iff.mpr ⟨rfl, hfits⟩⟩
  refine ⟨hcheck, ?_⟩
  rcases result_ofRange t start stop span with ⟨hfits, hx⟩ | ⟨hmisfits, hx⟩
  · refine ⟨_, hx, ⟨fun _ => hiff.mp hfits, fun _ => rfl⟩, fun _ => ⟨?_, reports_of_fits hfits⟩, ?_⟩
    · exact Bounds.check_eq_ok_iff.mpr ⟨rfl, hfits⟩
    · rintro ⟨⟩
  · refine ⟨_, hx, ⟨?_, fun hfits => absurd (hiff.mpr hfits) hmisfits⟩, ?_, fun _ =>
      ⟨reportsNothing_invalid t, ?_⟩⟩
    · rintro ⟨⟩
    · rintro ⟨⟩
    · cases hresult : Bounds.check t start stop span with
      | ok b => exact absurd (hiff.mpr (hcheck.mp ⟨b, hresult⟩)) hmisfits
      | error reason => exact ⟨reason, rfl, RangeError.trueOf_of_check hresult⟩

/-- All four positions are in order and in bounds, and one of them is inside a character. -/
example : Bounds.check ['a', 'é'] 1 2 ⟨0, 3⟩ = .error (.splitsCharacter 2) := rfl

end Extent

end Graft
