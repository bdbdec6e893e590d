import Graft.Proofs.Locator.Limit

/-!
# `Graft.Proofs.Locator.Offsets` — searches at offsets inside characters

Neither the position nor the limit of a search has to be a place where the text can be cut. What is
found lies in the text all the same, and its content can be cut out (`Locator.locateWithin_offsets`).
Two things depend on the offsets.

Inside a character a header may still answer, with an element that has no place in the text. A line
locator refuses such an element. A block locator does not: it takes zero as the start and as the end of
the header, so the block starts in front of the position, and its span cannot be cut out. A valid header
rules this out.

A locator that looks for a character cuts the text at the limit, and finds nothing where that is not
possible. With any other limit, raising it loses nothing.
-/

namespace Graft

namespace Locator

variable {t : Text} {pos headerEnd limit other stop : Nat} {l : Locator} {b : Block}

/-- Whether a locator looks for a character that closes a block. -/
def endsAtCharacter : Locator → Bool
  | block _ (.terminator _) _ => true
  | _ => false

/-- `locateWithin` takes a limit past the end of the text for the end. -/
theorem locateWithin_min (l : Locator) (t : Text) (pos limit : Nat) :
    l.locateWithin t pos (min limit t.size) = l.locateWithin t pos limit := by
  unfold locateWithin
  rw [Nat.min_assoc, Nat.min_self]

/-! ## Headers -/

/-- What a recogniser `Answers`, valid or not, starts no later than it ends, at two cuts of the text. The
    invalid extent does so at 0. -/
theorem cuts_of_answer {e : Element} (h : Recognizer.Answers t pos (some e)) :
    e.start ≤ e.span.stop ∧ t.isBoundary e.start = true ∧ t.isBoundary e.span.stop = true := by
  cases h with
  | found _ _ hsound =>
      have hplaced := hsound.placed
      exact ⟨hplaced.start_le_span_stop, hplaced.start_boundary, hplaced.span_stop_boundary⟩
  | misplaced _ _ hmis =>
      -- an invalid element reports zero for every position
      have hzero : e.start = 0 ∧ e.span.stop = 0 := by
        simp [Element.start, Element.span, hmis.extent_eq, Extent.start, Extent.span, Extent.invalid,
          Span.zero]
      simp [hzero.1, hzero.2]

/-- What it `Answers` at a position is valid just where the text can be cut: positions behind the cut are
    cuts as well, and a span from elsewhere never fits. -/
theorem isValid_iff_of_answer {e : Element} (h : Recognizer.Answers t pos (some e)) :
    e.isValid = true ↔ t.isBoundary pos = true := by
  cases h with
  | found hpos _ hsound => simp [hpos, Element.isValid, hsound.placed.valid]
  | misplaced _ hinside hmis =>
      simp [hinside, Element.isValid, hmis.extent_eq, Extent.isValid, Extent.invalid]

/-! ## The end of a block -/

/-- `terminated` searches the text up to the limit, so it needs a cut there. -/
theorem isBoundary_of_terminated {c : Char} {interior : Span}
    (h : (terminated t c pos headerEnd limit).result = .ok (some (stop, interior))) :
    t.isBoundary limit = true := by
  unfold terminated at h
  split at h
  · cases h
  next offset hoffset =>
    obtain ⟨region, hregion, -⟩ := Option.bind_eq_some_iff.mp hoffset
    have hsome : (t.slice? headerEnd limit).isSome = true := by simp [hregion]
    exact (Text.isSome_slice?_iff.mp hsome).2.2

/-- `ending_limit_iff` at a limit that need not be a cut: a higher one changes nothing, except that
    `terminated` needs a cut there (`isBoundary_of_terminated`). -/
theorem ending_raised_iff {closing : Closing} {indentation : Text} {interior : Span}
    (hheader : t.isBoundary headerEnd = true) (hle : limit ≤ other)
    (h : (ending closing t indentation pos headerEnd limit).result = .ok (some (stop, interior))) :
    (ending closing t indentation pos headerEnd other).result = .ok (some (stop, interior)) ↔
      ((∃ c, closing = .terminator c) → t.isBoundary other = true) := by
  cases closing with
  | line marker =>
      obtain ⟨hfirst, hinside⟩ := (closedByLine_eq_some_iff hheader).mp h
      obtain ⟨hfirst, hend⟩ := Text.firstClosingLine_limit_iff.mp hfirst
      have hraised : t.FirstClosingLine indentation marker headerEnd other interior.stop stop :=
        Text.firstClosingLine_limit_iff.mpr ⟨hfirst, Nat.le_trans hend hle⟩
      have hended : (ending (.line marker) t indentation pos headerEnd other).result
          = .ok (some (stop, interior)) := (closedByLine_eq_some_iff hheader).mpr ⟨hraised, hinside⟩
      simp [hended]
  | terminator c =>
      have hlimit := isBoundary_of_terminated h
      obtain ⟨-, hend, -⟩ := within_of_terminated h
      constructor
      · intro hended _
        exact isBoundary_of_terminated hended
      · intro hother
        have hcut := hother ⟨c, rfl⟩
        have hwhole := ((ending_limit_iff hheader hlimit).mp h).1
        exact (ending_limit_iff hheader hcut).mpr ⟨hwhole, Nat.le_trans hend hle⟩

/-! ## Constructs at a position -/

/-- Start and end of a block that `locateWithin` finds, by `cuts_of_answer` of its header. -/
theorem cuts_of_block {header : Recognizer} {closing : Closing} {wanted : Option Text}
    (hsound : header.Sound) (hlimit : limit ≤ t.size)
    (h : ((Locator.block header closing wanted).locateWithin t pos limit).result = .ok (some b)) :
    b.start ≤ b.stop ∧ b.stop ≤ limit ∧ t.isBoundary b.start = true ∧ t.isBoundary b.stop = true ∧
      b.span = ⟨pos, b.stop⟩ := by
  obtain ⟨hheader, -⟩ := exists_header_of_locateWithin h
  obtain ⟨hle, hstart, hcut⟩ := cuts_of_answer (hsound t pos _ hheader)
  obtain ⟨-, -, -, stop, interior, hended, hb⟩ := (locateWithin_eq_some_iff hlimit hheader).mp h
  obtain ⟨hbehind, hend, hstop⟩ := within_of_ending hcut hended
  rw [hb]
  exact ⟨Nat.le_trans hle hbehind, hend, hstart, hstop, rfl⟩

/-- The span of a `block` runs from the position, and the block starts where its header does. If the
    position is no cut, the header is invalid, and the block starts in front of the position, so that
    `covered?` fails. -/
theorem block_covered_iff {header : Recognizer} {closing : Closing} {wanted : Option Text}
    (hsound : header.Sound) (hlimit : limit ≤ t.size)
    (h : ((Locator.block header closing wanted).locateWithin t pos limit).result = .ok (some b)) :
    (pos ≤ b.start ∧ (b.covered? t).isSome = true) ↔ t.isBoundary pos = true := by
  obtain ⟨-, -, -, hstop, hspan⟩ := cuts_of_block hsound hlimit h
  unfold Block.covered?
  rw [hspan, Text.isSome_slice?_iff]
  constructor
  · rintro ⟨-, -, hpos, -⟩
    exact hpos
  · intro hpos
    have hrecognizer : (Locator.block header closing wanted).recognizer.Sound := hsound
    have hplaced := placed_of_locateWithin hrecognizer hpos h
    have hstart : pos ≤ b.start := Nat.le_trans hplaced.le_span hplaced.span_le
    exact ⟨hstart, Nat.le_trans hstart hplaced.start_le_stop, hpos, hstop⟩

/-- `locateWithin` of a line asks for a valid element, so that `isValid_iff_of_answer` gives the cut at
    the position. -/
theorem covered_of_line {construct : Recognizer} {wanted : Option Text} (hsound : construct.Sound)
    (hlimit : limit ≤ t.size)
    (h : ((Locator.line construct wanted).locateWithin t pos limit).result = .ok (some b)) :
    t.isBoundary pos = true ∧ (b.covered? t).isSome = true := by
  obtain ⟨-, e, hfound, -, hvalid, -, -, rfl⟩ := (line_eq_some_iff hlimit).mp h
  have hanswer := hsound t pos _ hfound
  have hpos := (isValid_iff_of_answer hanswer).mp hvalid
  have hplaced := (Recognizer.sound_of_boundary hanswer hpos).2.placed
  refine ⟨hpos, ?_⟩
  apply Text.isSome_slice?_iff.mpr
  exact ⟨hplaced.span_start_le_stop, hplaced.span_start_boundary, hplaced.span_stop_boundary⟩

/-! ## Higher limits -/

/-- `locateWithin` of a block under a higher limit. The header has been found, and what is left is
    `ending_raised_iff`. -/
theorem block_raised_iff {header : Recognizer} {closing : Closing} {wanted : Option Text}
    (hsound : header.Sound) (hle : limit ≤ other) (hother : other ≤ t.size)
    (h : ((Locator.block header closing wanted).locateWithin t pos limit).result = .ok (some b)) :
    ((Locator.block header closing wanted).locateWithin t pos other).result = .ok (some b) ↔
      ((∃ c, closing = .terminator c) → t.isBoundary other = true) := by
  obtain ⟨hheader, -⟩ := exists_header_of_locateWithin h
  obtain ⟨-, -, hcut⟩ := cuts_of_answer (hsound t pos _ hheader)
  obtain ⟨hlt, hend, hadmits, stop, interior, hended, hb⟩ :=
    (locateWithin_eq_some_iff (Nat.le_trans hle hother) hheader).mp h
  rw [locateWithin_eq_some_iff hother hheader, ← ending_raised_iff hcut hle hended]
  constructor
  · rintro ⟨-, -, -, stop', interior', hended', hb'⟩
    have hequal := hb.symm.trans hb'
    simp only [Block.mk.injEq, Option.some.injEq] at hequal
    obtain ⟨-, rfl, -, -, -, rfl⟩ := hequal
    exact hended'
  · intro hended'
    exact ⟨Nat.lt_of_lt_of_le hlt hle, Nat.le_trans hend hle, hadmits, stop, interior, hended', hb⟩

/-- `locateWithin` of a line under a higher limit: all its conditions are kept. -/
theorem line_raised {construct : Recognizer} {wanted : Option Text} (hle : limit ≤ other)
    (hother : other ≤ t.size)
    (h : ((Locator.line construct wanted).locateWithin t pos limit).result = .ok (some b)) :
    ((Locator.line construct wanted).locateWithin t pos other).result = .ok (some b) := by
  obtain ⟨hlt, e, hfound, hend, hrest⟩ := (line_eq_some_iff (Nat.le_trans hle hother)).mp h
  apply (line_eq_some_iff hother).mpr
  exact ⟨Nat.lt_of_lt_of_le hlt hle, e, hfound, Nat.le_trans hend hle, hrest⟩

/-- `block_raised_iff` and `line_raised` in one, and for limits past the end of the text as well. -/
theorem raised_iff (hsound : l.recognizer.Sound) (hle : limit ≤ other)
    (h : (l.locateWithin t pos limit).result = .ok (some b)) :
    (l.locateWithin t pos other).result = .ok (some b) ↔
      (l.endsAtCharacter = true → t.isBoundary (min other t.size) = true) := by
  have hsize : min other t.size ≤ t.size := Nat.min_le_right ..
  have hmin : min limit t.size ≤ min other t.size :=
    Nat.le_min.mpr ⟨Nat.le_trans (Nat.min_le_left ..) hle, Nat.min_le_right ..⟩
  rw [← locateWithin_min] at h
  rw [← locateWithin_min l t pos other]
  cases l with
  | block header closing wanted =>
      have hheader : header.Sound := hsound
      have hraised := block_raised_iff hheader hmin hsize h
      cases closing <;> simpa [endsAtCharacter] using hraised
  | line construct wanted => simp [line_raised hmin hsize h, endsAtCharacter]

/-! ## Any offset, any limit -/

/-- `locateWithin` reads its locator's recogniser once, at the position. -/
theorem header_of_locateWithin (h : (l.locateWithin t pos limit).result = .ok (some b)) :
    (l.recognizer t pos).result = .ok (some b.header) := by
  cases l with
  | block header closing wanted => exact (exists_header_of_locateWithin h).1
  | line construct wanted =>
      rw [← locateWithin_min] at h
      obtain ⟨-, e, hfound, -, -, -, -, rfl⟩ := (line_eq_some_iff (Nat.min_le_right ..)).mp h
      exact hfound

/-- **Any offset.** What `locateWithin` finds at any offset and within any limit starts no later than it
    ends, ends within the limit, and has a content. Just where its header is valid it starts no earlier
    than the offset, and its span can be cut out as well. The header is valid wherever the text can be
    cut, and always for a line. A higher limit finds the same, unless the locator `endsAtCharacter` and
    the text cannot be cut at that limit. -/
theorem locateWithin_offsets {resolve : Slot → Rule.Target} {slots : Nat} {r : Rule}
    (hl : l.recognizer = r.parse resolve slots)
    (h : (l.locateWithin t pos limit).result = .ok (some b)) :
    (b.start ≤ b.stop ∧ b.stop ≤ min limit t.size ∧ (b.content? t).isSome = true) ∧
      ((pos ≤ b.start ∧ (b.covered? t).isSome = true) ↔ b.header.isValid = true) ∧
      (t.isBoundary pos = true ∨ (∃ construct wanted, l = .line construct wanted) →
        b.header.isValid = true) ∧
      ∀ other, limit ≤ other →
        ((l.locateWithin t pos other).result = .ok (some b) ↔
          (l.endsAtCharacter = true → t.isBoundary (min other t.size) = true)) := by
  have hsound : l.recognizer.Sound := hl ▸ Rule.sound_parse resolve slots r
  have hvalid := isValid_iff_of_answer (hsound t pos _ (header_of_locateWithin h))
  have hsize : min limit t.size ≤ t.size := Nat.min_le_right ..
  have hraised (other : Nat) (hle : limit ≤ other) := raised_iff hsound hle h
  rw [← locateWithin_min] at h
  rw [hvalid]
  cases l with
  | block header closing wanted =>
      obtain ⟨hle, hend, hstart, hstop, -⟩ := cuts_of_block hsound hsize h
      refine ⟨⟨hle, hend, Text.isSome_slice?_iff.mpr ⟨hle, hstart, hstop⟩⟩,
        block_covered_iff hsound hsize h, ?_, hraised⟩
      rintro (hpos | ⟨construct, wanted', heq⟩)
      · exact hpos
      · cases heq
  | line construct wanted =>
      obtain ⟨hpos, hcovered⟩ := covered_of_line hsound hsize h
      have hplaced := placed_of_locateWithin hsound hpos h
      have hcontent : (b.content? t).isSome = true := Text.isSome_slice?_iff.mpr
        ⟨hplaced.start_le_stop, hplaced.start_boundary, hplaced.stop_boundary⟩
      refine ⟨⟨hplaced.start_le_stop, Nat.le_trans hplaced.stop_le (Nat.min_le_left ..), hcontent⟩,
        ⟨fun _ => hpos, fun _ => ?_⟩, fun _ => hpos, hraised⟩
      exact ⟨Nat.le_trans hplaced.le_span hplaced.span_le, hcovered⟩

/-- `locateWithin_offsets` for a block that a line closes, with a limit inside the last character of the
    text. -/
theorem locateWithin_offsets_accent : ∃ b,
    ((Locator.block (Rule.parse (fun _ => .undefined) 0 (.symbol ['x'])) (.line [')'])
      none).locateWithin ['x', '\n', ')', '\n', 'é'] 0 5).result = .ok (some b) ∧
    Text.isBoundary ['x', '\n', ')', '\n', 'é'] 5 = false ∧ b.stop = 4 ∧
    (b.covered? ['x', '\n', ')', '\n', 'é']).isSome = true ∧
    ((Locator.block (Rule.parse (fun _ => .undefined) 0 (.symbol ['x'])) (.line [')'])
      none).locateWithin ['x', '\n', ')', '\n', 'é'] 0 6).result = .ok (some b) := by
  have hrule : (Locator.block (Rule.parse (fun _ => .undefined) 0 (.symbol ['x'])) (.line [')'])
      none).recognizer = Rule.parse (fun _ => .undefined) 0 (.symbol ['x']) := rfl
  have h : ((Locator.block (Rule.parse (fun _ => .undefined) 0 (.symbol ['x'])) (.line [')'])
      none).locateWithin ['x', '\n', ')', '\n', 'é'] 0 5).result = .ok (some _) := rfl
  obtain ⟨-, hplaced, hheader, hraised⟩ := locateWithin_offsets hrule h
  have hcovered := (hplaced.mpr (hheader (.inl (by decide)))).2
  exact ⟨_, h, by decide, rfl, hcovered, (hraised 6 (by decide)).mpr (by simp [endsAtCharacter])⟩

/-- The exceptions of `locateWithin_offsets` are there. A missing optional header inside the last
    character: the block that it heads starts and ends in front of the position, and its span cannot be
    cut out. And a block that ends at a semicolon is found within its own length, but not within a limit
    inside the character behind it. -/
theorem locateWithin_inside_accent :
    (∃ b, ((Locator.block (Rule.parse (fun _ => .undefined) 0 (.optional (.plain ['a'])))
        (.terminator ';') none).locateWithin ['a', ';', 'é'] 3 4).result = .ok (some b) ∧
      b.start < 3 ∧ b.stop < 3 ∧ b.covered? ['a', ';', 'é'] = none) ∧
    (∃ b, ((Locator.block (Rule.parse (fun _ => .undefined) 0 (.optional (.plain ['a'])))
        (.terminator ';') none).locateWithin ['a', ';', 'é'] 0 2).result = .ok (some b)) ∧
    ((Locator.block (Rule.parse (fun _ => .undefined) 0 (.optional (.plain ['a'])))
        (.terminator ';') none).locateWithin ['a', ';', 'é'] 0 3).result = .ok none := by
  refine ⟨⟨_, rfl, ?_, ?_, ?_⟩, ⟨_, rfl⟩, rfl⟩ <;> decide

end Locator

end Graft
