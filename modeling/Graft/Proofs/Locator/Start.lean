import Graft.Locator
import Graft.Proofs.Rule.Flush
import Graft.Proofs.Text.Lines

/-!
# `Graft.Proofs.Locator.Start` — where blocks start

A block starts where the content of its header does, and what closes it is told by the indentation of
the line on which that is. For a header that passes over white space first this is the first character
that is not white space (`Locator.locateWithin_flush`): the white space before it belongs to the span
of the block only.

A header that begins with an optional part is different. Where the part is missing, the header starts
right at the position, in front of the white space, and so does the block
(`Locator.locateWithin_missing`). The indentation is then that of the line on which the white space
begins, and the block is closed by a line that is indented like that one.
-/

namespace Graft

namespace Text

/-- The first character of a range that is not white space stands at a position. -/
def FirstVisible (t : Text) (start stop p : Nat) : Prop :=
  ∃ (blanks : Text) (c : Char) (more : Text), t.slice? start stop = some (blanks ++ c :: more) ∧
    blanks.isBlank = true ∧ Unicode.IsVisible c ∧ p = start + blanks.size

/-- Some text is the run of spaces and tabs at the beginning of the line that a position lies on. -/
def Indents (t : Text) (p : Nat) (indentation : Text) : Prop :=
  ∃ (before line after rest : Text), t = before ++ (line ++ after) ∧ size (before ++ line) = p ∧
    (before = [] ∨ ∃ b, before = b ++ ['\n']) ∧ '\n' ∉ line ∧
    line ++ after = indentation ++ rest ∧ (∀ c ∈ indentation, isIndent c = true) ∧
    ∀ c, rest.head? = some c → isIndent c = false

/-- A blank `slice?` is blank from any cut in it on. -/
theorem exists_blank_slice? {t s : Text} {a b c : Nat} (h : t.slice? a c = some s)
    (hblank : s.isBlank = true) (hab : a ≤ b) (hbc : b ≤ c) (hb : t.isBoundary b = true) :
    ∃ s', t.slice? b c = some s' ∧ s'.isBlank = true := by
  obtain ⟨-, ha, hc⟩ := isSome_slice?_iff.mp (h ▸ rfl : (t.slice? a c).isSome = true)
  obtain ⟨first, hfirst⟩ := exists_slice? hab ha hb
  obtain ⟨second, hsecond⟩ := exists_slice? hbc hb hc
  obtain rfl := Option.some.inj (h.symm.trans (slice?_append hfirst hsecond))
  refine ⟨second, hsecond, ?_⟩
  rw [isBlank, List.all_append, Bool.and_eq_true] at hblank
  exact hblank.2

end Text

namespace Element.Flush

variable {t : Text} {pos : Nat} {e : Element}

/-- An element that is `Flush` starts at the `FirstVisible` character, of what it takes up and of
    everything from the position on. -/
theorem firstVisible (h : e.Flush t pos) (he : e.Sound t) (hle : pos ≤ e.span.start) :
    t.FirstVisible e.span.start e.span.stop e.start ∧ t.FirstVisible pos e.span.stop e.start := by
  obtain ⟨blanks, hslice, hblank⟩ := h.blank
  obtain ⟨c, more, hfirst, hc⟩ := h.first
  have hplaced := he.placed
  obtain ⟨blanks', hslice', hblank'⟩ :=
    Text.exists_blank_slice? hslice hblank hle hplaced.span_start_le hplaced.span_start_boundary
  exact ⟨⟨blanks', c, more, Text.slice?_append hslice' hfirst, hblank', hc,
      (Text.size_of_slice? hslice').symm⟩,
    ⟨blanks, c, more, Text.slice?_append hslice hfirst, hblank, hc,
      (Text.size_of_slice? hslice).symm⟩⟩

end Element.Flush

namespace Locator

variable {t : Text} {pos limit : Nat} {header : Recognizer} {closing : Closing}
  {wanted : Option Text} {b : Block}

/-- `lineIndentation` is what `Indents` the line of a cut. -/
theorem indents_lineIndentation {p : Nat} (hp : t.isBoundary p = true) :
    t.Indents p (lineIndentation t p) := by
  obtain ⟨s, after, rfl, rfl⟩ := Text.isBoundary_iff.mp hp
  obtain ⟨before, line, rfl, hbefore, hline⟩ := Text.exists_lastLine s
  have hindentation : lineIndentation (before ++ line ++ after) (Text.size (before ++ line))
      = (line ++ after).takeWhile Text.isIndent := by
    rw [lineIndentation, Text.indentationAt, List.append_assoc,
      Text.startOfLine_append hbefore hline after, Text.fromFloor_append]
  refine ⟨before, line, after, (line ++ after).dropWhile Text.isIndent, List.append_assoc .., rfl,
    hbefore, hline, ?_, ?_, ?_⟩
  · rw [hindentation, List.takeWhile_append_dropWhile]
  · rw [hindentation]
    exact List.all_eq_true.mp List.all_takeWhile
  · intro c hc
    simpa [hc] using List.head?_dropWhile_not Text.isIndent (line ++ after)

/-- What `locateWithin` takes from the header of a block: where it starts, and the `lineIndentation`
    there. -/
theorem exists_header_of_locateWithin
    (h : ((Locator.block header closing wanted).locateWithin t pos limit).result
      = .ok (some b)) :
    (header t pos).result = .ok (some b.header) ∧ b.start = b.header.start ∧
      b.indentation = lineIndentation t b.start ∧ b.span.start = pos := by
  unfold locateWithin at h
  dsimp only at h
  split at h
  · obtain ⟨found, hfound, h⟩ := Traced.result_bind_eq_ok_iff.mp h
    rcases found with _ | e
    · cases h
    dsimp only at h
    split at h
    · cases h
    split at h
    · cases h
    obtain ⟨ended, -, h⟩ := Traced.result_bind_eq_ok_iff.mp h
    rcases ended with _ | ⟨stop, interior⟩
    · cases h
    obtain rfl := Option.some.inj (Except.ok.inj h)
    exact ⟨hfound, rfl, rfl, rfl⟩
  · cases h

/-- **Where blocks start.** A header rule that is `Flush` passes over white space first. The block that
    `locateWithin` finds then starts at the `FirstVisible` character of its header and has the indentation
    of the line that holds it (`Indents`). Everything between the position and this character is white
    space, and belongs to the span only. -/
theorem locateWithin_flush {resolve : Slot → Rule.Target} {slots : Nat} {r : Rule}
    {F : Slot → Prop} (hresolve : ∀ slot q, F slot → resolve slot = .rule q → q.Flush F)
    (hr : r.Flush F) (hpos : t.isBoundary pos = true)
    (h : ((Locator.block (r.parse resolve slots) closing wanted).locateWithin t pos limit).result
      = .ok (some b)) :
    t.FirstVisible b.header.span.start b.header.span.stop b.start ∧
      t.Indents b.start b.indentation ∧
      b.span.start = pos ∧ t.FirstVisible b.span.start b.header.span.stop b.start := by
  obtain ⟨hheader, hstart, hindentation, hspan⟩ := exists_header_of_locateWithin h
  obtain ⟨hle, hsound⟩ :=
    Recognizer.sound_of_boundary (Rule.sound_parse resolve slots r t pos _ hheader) hpos
  have hflush := Rule.flush_parse hresolve slots hr t pos _ hpos hheader
  obtain ⟨hown, hfrom⟩ := hflush.firstVisible hsound hle
  have hcut : t.isBoundary b.start = true := by
    rw [hstart]
    exact hsound.placed.start_boundary
  refine ⟨hstart ▸ hown, ?_, hspan, ?_⟩
  · rw [hindentation]
    exact indents_lineIndentation hcut
  · rw [hspan, hstart]
    exact hfrom

/-- `locateWithin_flush` for a header on the second line, behind a line end and a space, and closed by the
    third line. -/
theorem locateWithin_flush_indented : ∃ b,
    ((Locator.block (Rule.parse (fun _ => .undefined) 0 (.join [.symbol ['x']])) (.line [')'])
        none).locateWithin ['\n', ' ', 'x', '\n', ' ', ')', '\n', ')', '\n'] 0 9).result
        = .ok (some b) ∧
      b.start = 2 ∧ b.stop = 7 ∧
      Text.Indents ['\n', ' ', 'x', '\n', ' ', ')', '\n', ')', '\n'] 2 b.indentation := by
  have h : ((Locator.block (Rule.parse (fun _ => .undefined) 0 (.join [.symbol ['x']]))
      (.line [')']) none).locateWithin ['\n', ' ', 'x', '\n', ' ', ')', '\n', ')', '\n'] 0
      9).result = .ok (some _) := rfl
  have hflush : Rule.Flush (fun _ => False) (.join [.symbol ['x']]) :=
    .join (.symbol ⟨'x', rfl, rfl⟩)
  obtain ⟨-, hindents, -, -⟩ := locateWithin_flush (fun _ _ hF => hF.elim) hflush rfl h
  exact ⟨_, h, rfl, rfl, hindents⟩

/-- `optional` answers an empty element right at the position where its part is missing. -/
theorem start_of_missing {part : Recognizer} {e : Element} (hpos : t.isBoundary pos = true)
    (hmiss : (part t pos).result = .ok none)
    (h : (Recognizer.optional part t pos).result = .ok (some e)) : e.start = pos := by
  unfold Recognizer.optional at h
  split at h
  · cases h
  obtain ⟨found, hfound, h⟩ := Traced.result_bind_eq_ok_iff.mp h
  obtain rfl := Except.ok.inj (hmiss.symm.trans hfound)
  obtain ⟨x, hx, h⟩ := Traced.result_bind_eq_ok_iff.mp h
  obtain rfl := Option.some.inj (Except.ok.inj h)
  have hfits : Bounds.Fits t ⟨pos, pos, ⟨pos, pos⟩⟩ :=
    ⟨Nat.le_refl _, Nat.le_refl _, Nat.le_refl _, by simp [Bounds.positions, hpos]⟩
  obtain rfl := Extent.eq_of_ofRange hx hfits
  rfl

/-- `Flush` cannot be left out of `locateWithin_flush`. A header that begins with an `optional` part,
    where that part is missing: the block starts at the position itself, whatever stands there, and has
    the indentation of the line that holds the position. -/
theorem locateWithin_missing {resolve : Slot → Rule.Target} {slots : Nat} {part : Rule}
    {rest : List Rule} (hpos : t.isBoundary pos = true)
    (hmiss : (part.parse resolve slots t pos).result = .ok none)
    (h : ((Locator.block ((Rule.join (.optional part :: rest)).parse resolve slots) closing
      wanted).locateWithin t pos limit).result = .ok (some b)) :
    b.start = pos ∧ t.Indents pos b.indentation := by
  obtain ⟨hheader, hstart, hindentation, -⟩ := exists_header_of_locateWithin h
  have hsound := (Recognizer.sound_of_boundary
    (Rule.sound_parse resolve slots _ t pos _ hheader) hpos).2
  unfold Rule.parse at hheader hmiss
  rw [Rule.recognizer, Rule.recognizers, Rule.recognizer] at hheader
  obtain ⟨run, hrun, hheader⟩ := Traced.result_bind_eq_ok_iff.mp hheader
  rcases run with _ | ⟨items, stop⟩
  · cases hheader
  obtain ⟨j, hj, hheader⟩ := Traced.result_bind_eq_ok_iff.mp hheader
  obtain rfl := Option.some.inj (Except.ok.inj hheader)
  obtain ⟨x, hx, hjoin⟩ := Recognizer.exists_of_ofJoin hj
  obtain ⟨first, others, rfl, hfirst, -⟩ := Recognizer.exists_of_runAll_cons hrun
  obtain ⟨last, hlast⟩ : ∃ last, (first :: others).getLast? = some last :=
    Option.isSome_iff_exists.mp (by simp)
  rw [Extent.ofItems, hlast] at hx
  obtain ⟨hjoinStart, -, -⟩ := Recognizer.start_of_ofRange hx (by rw [hjoin]; rfl) hsound
  have hblock : b.start = pos :=
    calc
      b.start = b.header.start := hstart
      _ = first.start := hjoinStart
      _ = pos := start_of_missing hpos hmiss hfirst
  refine ⟨hblock, ?_⟩
  rw [hindentation, hblock]
  exact indents_lineIndentation hpos

/-- The text of `locateWithin_flush_indented` with an optional part in front of the header. The block
    starts with the line end, has no indentation, and is closed by the last line, though the first
    character of its header that is not white space stands behind a space on the second line. -/
theorem locateWithin_missing_indented : ∃ b,
    ((Locator.block (Rule.parse (fun _ => .undefined) 0
          (.join [.optional (.symbol ['a']), .symbol ['x']])) (.line [')']) none).locateWithin
        ['\n', ' ', 'x', '\n', ' ', ')', '\n', ')', '\n'] 0 9).result = .ok (some b) ∧
      b.start = 0 ∧ b.indentation = [] ∧ b.stop = 9 ∧
      Text.FirstVisible ['\n', ' ', 'x', '\n', ' ', ')', '\n', ')', '\n'] b.header.span.start
        b.header.span.stop 2 ∧
      Text.Indents ['\n', ' ', 'x', '\n', ' ', ')', '\n', ')', '\n'] 2 [' '] := by
  have hindents := indents_lineIndentation
    (show Text.isBoundary ['\n', ' ', 'x', '\n', ' ', ')', '\n', ')', '\n'] 2 = true from rfl)
  exact ⟨_, rfl, rfl, rfl, rfl, ⟨['\n', ' '], 'x', [], rfl, rfl, rfl, rfl⟩, hindents⟩

end Locator

end Graft
