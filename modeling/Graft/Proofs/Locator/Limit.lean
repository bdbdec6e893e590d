import Graft.Proofs.Locator.Terminator

/-!
# `Graft.Proofs.Locator.Limit` — searches with a limit

A search with a limit finds what the search without one finds, if that ends in time, and otherwise
nothing (`Locator.locateWithin_limit`). The limit is tested in several places: against the end of the
header, against the end of each line that is looked at, as the end of the range in which a character is
sought, and against the end of an element.

For a line or a character that closes a block, a lower limit admits fewer of them, and those it no
longer admits stand behind all the others; so the first one stays the first
(`Text.firstClosingLine_limit_iff`, `Text.firstOccurrence_limit_iff`). What ends a block is then told by
the whole text and the limit (`ending_limit_iff`).
-/

namespace Graft

namespace Text

variable {t indentation marker before : Text} {c : Char} {start limit p next : Nat}

/-- The limit of a `ClosingLine` says when it has to end, and nothing about the lines in front. -/
theorem closingLine_limit_iff : t.ClosingLine indentation marker start limit p next ↔
    t.ClosingLine indentation marker start t.size p next ∧ next ≤ limit := by
  constructor
  · intro h
    have hsize := h.line.next_le_size
    exact ⟨{ h with lt_limit := Nat.lt_of_lt_of_le h.line.lt hsize, le_limit := hsize }, h.le_limit⟩
  · rintro ⟨h, hle⟩
    exact { h with lt_limit := Nat.lt_of_lt_of_le h.line.lt hle, le_limit := hle }

/-- So the `FirstClosingLine` within a limit is the first one of all, if it ends in time: no line in front
    of it ends later than it does. -/
theorem firstClosingLine_limit_iff : t.FirstClosingLine indentation marker start limit p next ↔
    t.FirstClosingLine indentation marker start t.size p next ∧ next ≤ limit := by
  constructor
  · rintro ⟨h, hfirst⟩
    obtain ⟨hclosing, hle⟩ := closingLine_limit_iff.mp h
    refine ⟨⟨hclosing, ?_⟩, hle⟩
    intro q stop hq
    apply Nat.le_of_not_lt
    intro hlt
    -- an earlier line ends before this one starts, so it ends in time as well
    have hstop : stop ≤ limit := by
      have := hq.line.le_of_lt h.line hlt
      have := h.lt_limit
      omega
    have := hfirst q stop (closingLine_limit_iff.mpr ⟨hq, hstop⟩)
    omega
  · rintro ⟨⟨h, hfirst⟩, hle⟩
    refine ⟨closingLine_limit_iff.mpr ⟨h, hle⟩, ?_⟩
    intro q stop hq
    exact hfirst q stop (closingLine_limit_iff.mp hq).1

/-- The same of a `FirstOccurrence`. -/
theorem firstOccurrence_limit_iff : t.FirstOccurrence c start limit p before ↔
    t.FirstOccurrence c start t.size p before ∧ p + c.utf8Size ≤ limit := by
  constructor
  · intro h
    obtain ⟨-, -, -, hbehind⟩ := h.cuts
    exact ⟨{ h with le_limit := le_size_of_isBoundary hbehind }, h.le_limit⟩
  · rintro ⟨h, hle⟩
    exact { h with le_limit := hle }

end Text

namespace Locator

variable {t : Text} {pos headerEnd limit stop : Nat} {wanted : Option Text} {b : Block}

/-! ## The end of a block -/

/-- What both kinds of `Closing` have in common: `ending` within a limit is `ending` without one, if it is
    in time. -/
theorem ending_limit_iff {closing : Closing} {indentation : Text} {interior : Span}
    (hheader : t.isBoundary headerEnd = true) (hlimit : t.isBoundary limit = true) :
    (ending closing t indentation pos headerEnd limit).result = .ok (some (stop, interior)) ↔
      (ending closing t indentation pos headerEnd t.size).result = .ok (some (stop, interior)) ∧
        stop ≤ limit := by
  cases closing with
  | line marker =>
      show (closedByLine t marker indentation headerEnd limit).result = _ ↔
        (closedByLine t marker indentation headerEnd t.size).result = _ ∧ _
      rw [closedByLine_eq_some_iff hheader, closedByLine_eq_some_iff hheader,
        Text.firstClosingLine_limit_iff, and_right_comm]
  | terminator c =>
      show (terminated t c pos headerEnd limit).result = _ ↔
        (terminated t c pos headerEnd t.size).result = _ ∧ _
      rw [terminated_eq_some_iff hlimit, terminated_eq_some_iff (Text.isBoundary_size t)]
      constructor
      · rintro ⟨hstart, rfl, before, hfirst, hblank⟩
        obtain ⟨hfirst, hle⟩ := Text.firstOccurrence_limit_iff.mp hfirst
        exact ⟨⟨hstart, rfl, before, hfirst, hblank⟩, hle⟩
      · rintro ⟨⟨hstart, rfl, before, hfirst, hblank⟩, hle⟩
        exact ⟨hstart, rfl, before, Text.firstOccurrence_limit_iff.mpr ⟨hfirst, hle⟩, hblank⟩

/-! ## Constructs at a position -/

/-- A `block` is found within a limit just if it is found in all of the text and ends within the limit. -/
theorem block_limit_iff {header : Recognizer} {closing : Closing} (hsound : header.Sound)
    (hpos : t.isBoundary pos = true) (hlimit : t.isBoundary limit = true) :
    ((Locator.block header closing wanted).locateWithin t pos limit).result = .ok (some b) ↔
      ((Locator.block header closing wanted).locate t pos).result = .ok (some b) ∧
        pos < limit ∧ b.span.stop ≤ limit := by
  have hsize := Text.le_size_of_isBoundary hlimit
  unfold locate
  constructor
  · intro h
    obtain ⟨hheader, -⟩ := exists_header_of_locateWithin h
    have hcut := (Recognizer.sound_of_boundary (hsound t pos _ hheader) hpos).2.placed
    obtain ⟨hlt, hend, hadmits, stop, interior, hended, hb⟩ :=
      (locateWithin_eq_some_iff hsize hheader).mp h
    obtain ⟨hended, hle⟩ := (ending_limit_iff hcut.span_stop_boundary hlimit).mp hended
    refine ⟨(locateWithin_eq_some_iff (Nat.le_refl _) hheader).mpr ?_, hlt, ?_⟩
    · exact ⟨Nat.lt_of_lt_of_le hlt hsize, Nat.le_trans hend hsize, hadmits, stop, interior, hended,
        hb⟩
    · rw [hb]
      exact hle
  · rintro ⟨h, hlt, hle⟩
    obtain ⟨hheader, -⟩ := exists_header_of_locateWithin h
    have hcut := (Recognizer.sound_of_boundary (hsound t pos _ hheader) hpos).2.placed
    obtain ⟨-, -, hadmits, stop, interior, hended, hb⟩ :=
      (locateWithin_eq_some_iff (Nat.le_refl _) hheader).mp h
    have hstop : stop ≤ limit := by
      rw [hb] at hle
      exact hle
    -- the header ends before the block does
    obtain ⟨hbehind, -⟩ := within_of_ending hcut.span_stop_boundary hended
    apply (locateWithin_eq_some_iff hsize hheader).mpr
    exact ⟨hlt, Nat.le_trans hbehind hstop, hadmits, stop, interior,
      (ending_limit_iff hcut.span_stop_boundary hlimit).mpr ⟨hended, hstop⟩, hb⟩

/-- `locateWithin` of a line, written out: what is asked of the element that is found. -/
theorem line_eq_some_iff {construct : Recognizer} (hlimit : limit ≤ t.size) :
    ((Locator.line construct wanted).locateWithin t pos limit).result = .ok (some b) ↔
      pos < limit ∧ ∃ e, (construct t pos).result = .ok (some e) ∧ e.span.stop ≤ limit ∧
        e.isValid = true ∧ admits wanted (lineIndentation t e.start) = true ∧
        t.containsBlankLine e.start e.stop = false ∧
        b = ⟨e.start, e.stop, e.span, lineIndentation t e.start, e, none⟩ := by
  unfold locateWithin lineWithin
  dsimp only
  rw [Nat.min_eq_left hlimit]
  constructor
  · intro h
    split at h
    next hlt =>
      obtain ⟨found, hfound, h⟩ := Traced.result_bind_eq_ok_iff.mp h
      rcases found with _ | e
      · cases h
      dsimp only at h
      split at h
      · cases h
      next hcheck =>
        split at h
        · cases h
        next hblank =>
          obtain ⟨⟨hend, hvalid⟩, hadmits⟩ : (e.span.stop ≤ limit ∧ e.isValid = true) ∧
              admits wanted (lineIndentation t e.start) = true := by simpa using hcheck
          obtain rfl := Option.some.inj (Except.ok.inj h)
          exact ⟨hlt, e, hfound, hend, hvalid, hadmits, Bool.eq_false_iff.mpr hblank, rfl⟩
    next => cases h
  · rintro ⟨hlt, e, hfound, hend, hvalid, hadmits, hblank, rfl⟩
    rw [if_pos hlt]
    apply Traced.result_bind_eq_ok_iff.mpr
    refine ⟨some e, hfound, ?_⟩
    simp [hvalid, hadmits, hblank, Nat.not_lt.mpr hend]

/-- The same of a `line`. -/
theorem line_limit_iff {construct : Recognizer} (hlimit : t.isBoundary limit = true) :
    ((Locator.line construct wanted).locateWithin t pos limit).result = .ok (some b) ↔
      ((Locator.line construct wanted).locate t pos).result = .ok (some b) ∧
        pos < limit ∧ b.span.stop ≤ limit := by
  have hsize := Text.le_size_of_isBoundary hlimit
  unfold locate
  rw [line_eq_some_iff hsize, line_eq_some_iff (Nat.le_refl _)]
  constructor
  · rintro ⟨hlt, e, hfound, hend, hrest⟩
    refine ⟨⟨Nat.lt_of_lt_of_le hlt hsize, e, hfound, Nat.le_trans hend hsize, hrest⟩, hlt, ?_⟩
    rw [hrest.2.2.2]
    exact hend
  · rintro ⟨⟨-, e, hfound, -, hrest⟩, hlt, hend⟩
    rw [hrest.2.2.2] at hend
    exact ⟨hlt, e, hfound, hend, hrest⟩

/-- **Limits.** For a locator that goes by a rule, `locateWithin` a limit finds what `locate` finds
    without one, provided that the position lies before the limit and the construct ends within it. So
    what is found stays the same under every higher limit, and under every lower one that lies behind the
    position and not in front of the end of the construct. -/
theorem locateWithin_limit {resolve : Slot → Rule.Target} {slots : Nat} {r : Rule} {l : Locator}
    (hl : l.recognizer = r.parse resolve slots) (hpos : t.isBoundary pos = true)
    (hlimit : t.isBoundary limit = true) (b : Block) :
    ((l.locateWithin t pos limit).result = .ok (some b) ↔
        (l.locate t pos).result = .ok (some b) ∧ pos < limit ∧ b.span.stop ≤ limit) ∧
      ∀ other, t.isBoundary other = true →
        limit ≤ other ∨ (pos < other ∧ b.span.stop ≤ other) →
        (l.locateWithin t pos limit).result = .ok (some b) →
          (l.locateWithin t pos other).result = .ok (some b) := by
  have hsound : l.recognizer.Sound := hl ▸ Rule.sound_parse resolve slots r
  have hlaw (bound : Nat) (hbound : t.isBoundary bound = true) :
      (l.locateWithin t pos bound).result = .ok (some b) ↔
        (l.locate t pos).result = .ok (some b) ∧ pos < bound ∧ b.span.stop ≤ bound := by
    cases l with
    | block header closing wanted => exact block_limit_iff hsound hpos hbound
    | line construct wanted => exact line_limit_iff hbound
  refine ⟨hlaw limit hlimit, ?_⟩
  intro other hother hfits hfound
  obtain ⟨hlocate, hlt, hend⟩ := (hlaw limit hlimit).mp hfound
  apply (hlaw other hother).mpr
  rcases hfits with hle | ⟨hlt', hend'⟩
  · exact ⟨hlocate, Nat.lt_of_lt_of_le hlt hle, Nat.le_trans hend hle⟩
  · exact ⟨hlocate, hlt', hend'⟩

/-- `locateWithin_limit` for a block that ends behind a semicolon. It is found as long as the limit does
    not cut that off. -/
theorem locateWithin_limit_semicolon : ∃ b,
    ((Locator.block (Rule.parse (fun _ => .undefined) 0 (.symbol ['x'])) (.terminator ';')
      none).locateWithin ['x', 'é', ';', 'z'] 0 5).result = .ok (some b) ∧
    ((Locator.block (Rule.parse (fun _ => .undefined) 0 (.symbol ['x'])) (.terminator ';')
      none).locateWithin ['x', 'é', ';', 'z'] 0 4).result = .ok (some b) ∧
    ((Locator.block (Rule.parse (fun _ => .undefined) 0 (.symbol ['x'])) (.terminator ';')
      none).locateWithin ['x', 'é', ';', 'z'] 0 3).result ≠ .ok (some b) := by
  have hcut : ∀ p ∈ [0, 3, 4, 5], Text.isBoundary ['x', 'é', ';', 'z'] p = true := by decide
  have hrule : (Locator.block (Rule.parse (fun _ => .undefined) 0 (.symbol ['x']))
      (.terminator ';') none).recognizer = Rule.parse (fun _ => .undefined) 0 (.symbol ['x']) := rfl
  have hlimit (limit : Nat) (h : limit ∈ [0, 3, 4, 5]) :=
    locateWithin_limit hrule (hcut 0 (by decide)) (hcut limit h)
      ⟨0, 4, ⟨0, 4⟩, [], .symbol ⟨some ⟨0, 1, ⟨0, 1⟩⟩⟩, some ⟨1, 3⟩⟩
  refine ⟨_, rfl, ?_, ?_⟩
  · exact (hlimit 5 (by decide)).2 4 (hcut 4 (by decide)) (.inr ⟨by decide, by decide⟩) rfl
  · intro h
    exact absurd ((hlimit 3 (by decide)).1.mp h).2.2 (by decide)

end Locator

end Graft
