import Graft.Proofs.Locator.ClosingLine
import Graft.Proofs.Text.BlankLine

/-!
# `Graft.Proofs.Locator.Terminator` — the character that closes a block

A block may be closed by the first occurrence of a character behind its header. The occurrence has to
lie within the limit, and what stands between it and the header must hold no blank line.

An occurrence is the first one where the text in front of it does not hold the character
(`Text.FirstOccurrence`), so the limit decides whether there is one and not which it is. A block is
located just where its header is admitted, such an occurrence exists, and the text up to it has no blank
line; that text is the interior of the block (`locateWithin_terminator`).
-/

namespace Graft

namespace Locator

variable {t : Text} {c : Char} {pos headerEnd limit stop : Nat}

/-- `terminated` finds exactly the `FirstOccurrence` of the character behind the header, if the text in
    front of it has no blank line. That text is the interior. -/
theorem terminated_eq_some_iff {interior : Span} (hlimit : t.isBoundary limit = true) :
    (terminated t c pos headerEnd limit).result = .ok (some (stop, interior)) ↔
      interior.start = headerEnd ∧ stop = interior.stop + c.utf8Size ∧
        ∃ before, t.FirstOccurrence c headerEnd limit interior.stop before ∧
          ¬ before.HasBlankLine := by
  constructor
  · intro h
    obtain ⟨hstart, hstop, hblank, before, hfirst⟩ := firstOccurrence_of_terminated h
    rw [← Bool.not_eq_true, Text.containsBlankLine_iff hfirst.text] at hblank
    exact ⟨hstart, hstop, before, hfirst, hblank⟩
  · obtain ⟨inside, found⟩ := interior
    rintro ⟨rfl, rfl, before, hfirst, hblank⟩
    dsimp only at hfirst
    obtain ⟨hle, hstart, -, -⟩ := hfirst.cuts
    have hend : found ≤ limit := Nat.le_trans (Nat.le_add_right _ _) hfirst.le_limit
    obtain ⟨region, hregion⟩ := Text.exists_slice? (Nat.le_trans hle hend) hstart hlimit
    obtain ⟨hplain, rfl, after, hsplit⟩ := (Text.firstOccurrence_iff hregion).mp hfirst
    have hfind : (t.slice? inside limit).bind (Text.find? c) = some before.size := by
      rw [hregion, Option.bind_some]
      exact Text.find?_eq_some_iff.mpr ⟨before, after, hsplit, hplain, rfl⟩
    rw [← Text.containsBlankLine_iff hfirst.text, Bool.not_eq_true] at hblank
    unfold terminated
    simp only [hfind, hblank]
    rfl

/-- **Blocks closed by a character.** Where the header is found, `locateWithin` comes to an answer. It is
    a block just if the position lies before the limit, the header ends within it and has the indentation
    that is asked for, and the character stands between the header and the limit, with no `HasBlankLine`
    in front of its first occurrence. The interior of the block is what stands between the header and this
    occurrence, and the block ends right behind it. -/
theorem locateWithin_terminator {resolve : Slot → Rule.Target} {slots : Nat} {r : Rule}
    {wanted : Option Text} {e : Element} (hpos : t.isBoundary pos = true)
    (hlimit : t.isBoundary limit = true)
    (hheader : (r.parse resolve slots t pos).result = .ok (some e)) (c : Char) :
    t.Indents e.start (lineIndentation t e.start) ∧ ∃ found,
      ((Locator.block (r.parse resolve slots) (.terminator c) wanted).locateWithin t pos limit).result
        = .ok found ∧
      (found.isSome = true ↔
        pos < limit ∧ e.span.stop ≤ limit ∧ (∀ w ∈ wanted, w = lineIndentation t e.start) ∧
          ∃ before after : Text, t.slice? e.span.stop limit = some (before ++ c :: after) ∧
            c ∉ before ∧ ¬ before.HasBlankLine) ∧
      ∀ b ∈ found, ∃ i before, b.interior? = some i ∧ i.start = e.span.stop ∧
        t.slice? i.start i.stop = some before ∧ c ∉ before ∧
        t.slice? i.stop b.stop = some [c] ∧ b.stop = b.span.stop ∧ b.span.stop ≤ limit := by
  have hsize := Text.le_size_of_isBoundary hlimit
  have hplaced := (Recognizer.sound_of_boundary
    (Rule.sound_parse resolve slots r t pos _ hheader) hpos).2.placed
  have hcut := hplaced.span_stop_boundary
  have hends (stop : Nat) (interior : Span) : (ending (.terminator c) t (lineIndentation t e.start) pos
      e.span.stop limit).result = .ok (some (stop, interior)) ↔ _ := terminated_eq_some_iff hlimit
  obtain ⟨found, hresult, hsome, hblock⟩ := exists_located hsize hheader hends wanted
  refine ⟨indents_lineIndentation hplaced.start_boundary, found, hresult, ?_, ?_⟩
  · rw [hsome]
    constructor
    · rintro ⟨hlt, hend, hadmits, stop, interior, -, -, before, hfirst, hblank⟩
      obtain ⟨region, hregion⟩ := Text.exists_slice? hend hcut hlimit
      obtain ⟨hplain, -, after, rfl⟩ := (Text.firstOccurrence_iff hregion).mp hfirst
      exact ⟨hlt, hend, hadmits, before, after, hregion, hplain, hblank⟩
    · rintro ⟨hlt, hend, hadmits, before, after, hregion, hplain, hblank⟩
      have hfirst := (Text.firstOccurrence_iff hregion).mpr ⟨hplain, rfl, after, rfl⟩
      exact ⟨hlt, hend, hadmits, _, ⟨e.span.stop, _⟩, rfl, rfl, before, hfirst, hblank⟩
  · intro b hb
    obtain ⟨_, interior, ⟨hstart, rfl, before, hfirst, -⟩, rfl⟩ := hblock b hb
    refine ⟨interior, before, rfl, hstart, ?_, hfirst.plain, hfirst.here, rfl, hfirst.le_limit⟩
    rw [hstart]
    exact hfirst.text

/-- `locateWithin_terminator` for a header behind a space. Two newlines stand before the semicolon, with a
    letter between them. -/
theorem locateWithin_terminator_indented : ∃ b i,
    ((Locator.block (Rule.parse (fun _ => .undefined) 0 (.symbol ['x'])) (.terminator ';')
        (some [' '])).locateWithin [' ', 'x', '\n', 'é', '\n', ';', 'z'] 0 8).result = .ok (some b) ∧
      b.interior? = some i ∧ i.start = 2 ∧ b.stop = 7 ∧
      Text.slice? [' ', 'x', '\n', 'é', '\n', ';', 'z'] i.stop b.stop = some [';'] := by
  have hheader : (Rule.parse (fun _ => .undefined) 0 (.symbol ['x'])
      [' ', 'x', '\n', 'é', '\n', ';', 'z'] 0).result = .ok (some _) := rfl
  have hlimit : Text.isBoundary [' ', 'x', '\n', 'é', '\n', ';', 'z'] 8 = true := rfl
  obtain ⟨-, found, hfound, -, hblock⟩ :=
    @locateWithin_terminator _ _ _ _ _ _ (some [' ']) _ rfl hlimit hheader ';'
  obtain rfl := Except.ok.inj hfound
  obtain ⟨i, before, hi, -, -, -, hhere, -⟩ := hblock _ rfl
  obtain rfl := Option.some.inj hi
  exact ⟨_, _, rfl, rfl, rfl, rfl, hhere⟩

end Locator

end Graft
