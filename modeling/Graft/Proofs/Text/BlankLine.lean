import Graft.Proofs.Text.Cut
import Graft.Text.Lines

/-!
# `Graft.Proofs.Text.BlankLine` — blank lines in a range

A range of a text holds a blank line where two of its newlines have nothing but white space between
them (`Text.HasBlankLine`). The search for blank lines splits the range at its newlines and asks for a
blank piece other than the first and the last one; it finds just that (`containsBlankLine_iff`).

Both sides are followed from the end of the range to its start. One more character either begins a
piece of its own, and is then the first of the two newlines, or goes on with the first piece.
-/

namespace Graft.Text

/-- Whether two newlines of a text have nothing but white space between them. -/
def HasBlankLine (s : Text) : Prop :=
  ∃ blanks : Text, blanks.isBlank = true ∧ '\n' :: (blanks ++ ['\n']) <:+: s

/-- Whether some newline of a text has nothing but white space in front of it. -/
def StartsBlank (s : Text) : Prop :=
  ∃ blanks : Text, blanks.isBlank = true ∧ blanks ++ ['\n'] <+: s

variable {c : Char} {s : Text}

theorem not_startsBlank_nil : ¬ StartsBlank [] := by
  rintro ⟨blanks, -, hprefix⟩
  simp at hprefix

theorem startsBlank_newline (s : Text) : StartsBlank ('\n' :: s) :=
  ⟨[], rfl, by simp⟩

theorem startsBlank_cons (hc : c ≠ '\n') :
    StartsBlank (c :: s) ↔ Unicode.isWhiteSpace c = true ∧ StartsBlank s := by
  constructor
  · rintro ⟨blanks, hblank, hprefix⟩
    cases blanks with
    | nil => exact absurd (List.cons_prefix_cons.mp hprefix).1.symm hc
    | cons b blanks =>
        obtain ⟨rfl, hrest⟩ := List.cons_prefix_cons.mp hprefix
        obtain ⟨hb, hblanks⟩ : Unicode.isWhiteSpace b = true ∧ isBlank blanks = true := by
          simpa [isBlank] using hblank
        exact ⟨hb, blanks, hblanks, hrest⟩
  · rintro ⟨hspace, blanks, hblank, hprefix⟩
    refine ⟨c :: blanks, ?_, List.cons_prefix_cons.mpr ⟨rfl, hprefix⟩⟩
    simpa [isBlank, hspace] using hblank

theorem not_hasBlankLine_nil : ¬ HasBlankLine [] := by
  rintro ⟨blanks, -, hinfix⟩
  simp at hinfix

/-- `HasBlankLine` character by character: one in front of a text matters only as the first of the two
    newlines. -/
theorem hasBlankLine_cons : HasBlankLine (c :: s) ↔ (c = '\n' ∧ StartsBlank s) ∨ HasBlankLine s := by
  constructor
  · rintro ⟨blanks, hblank, hinfix⟩
    rcases List.infix_cons_iff.mp hinfix with hprefix | hinfix
    · obtain ⟨hc, hrest⟩ := List.cons_prefix_cons.mp hprefix
      exact .inl ⟨hc.symm, blanks, hblank, hrest⟩
    · exact .inr ⟨blanks, hblank, hinfix⟩
  · rintro (⟨rfl, blanks, hblank, hprefix⟩ | ⟨blanks, hblank, hinfix⟩)
    · exact ⟨blanks, hblank, (List.cons_prefix_cons.mpr ⟨rfl, hprefix⟩).isInfix⟩
    · exact ⟨blanks, hblank, hinfix.trans (List.suffix_cons c s).isInfix⟩

/-! ## Pieces -/

theorem pieces_newline (s : Text) : pieces ('\n' :: s) = [] :: pieces s := by
  rw [pieces, if_pos rfl]

theorem pieces_cons {piece : Text} {rest : List Text} (hc : c ≠ '\n')
    (h : pieces s = piece :: rest) : pieces (c :: s) = (c :: piece) :: rest := by
  rw [pieces, if_neg hc, h]

theorem exists_pieces (s : Text) : ∃ piece rest, pieces s = piece :: rest := by
  induction s with
  | nil => exact ⟨[], [], rfl⟩
  | cons c s ih =>
      obtain ⟨piece, rest, h⟩ := ih
      by_cases hc : c = '\n'
      · subst hc
        exact ⟨[], pieces s, pieces_newline s⟩
      · exact ⟨c :: piece, rest, pieces_cons hc h⟩

/-- `StartsBlank` in terms of `pieces`: the first piece is blank, and it is not the last. -/
theorem startsBlank_iff {piece : Text} {rest : List Text} (h : pieces s = piece :: rest) :
    StartsBlank s ↔ piece.isBlank = true ∧ rest ≠ [] := by
  induction s generalizing piece rest with
  | nil =>
      obtain ⟨rfl, rfl⟩ := List.cons.inj h
      simp [not_startsBlank_nil]
  | cons c s ih =>
      obtain ⟨first, others, hs⟩ := exists_pieces s
      by_cases hc : c = '\n'
      · subst hc
        obtain ⟨rfl, rfl⟩ := List.cons.inj ((pieces_newline s).symm.trans h)
        simp [startsBlank_newline, isBlank, hs]
      · obtain ⟨rfl, rfl⟩ := List.cons.inj ((pieces_cons hc hs).symm.trans h)
        rw [startsBlank_cons hc, ih hs]
        simp [isBlank, and_assoc]

/-- The test of `containsBlankLine`, which drops the first piece and the last, is `HasBlankLine`. By
    induction on the text, with `hasBlankLine_cons`. -/
theorem any_isBlank_pieces_iff :
    ((pieces s).drop 1).dropLast.any isBlank = true ↔ HasBlankLine s := by
  induction s with
  | nil => simp [pieces, not_hasBlankLine_nil]
  | cons c s ih =>
      obtain ⟨piece, rest, hs⟩ := exists_pieces s
      rw [hs, List.drop_succ_cons, List.drop_zero] at ih
      rw [hasBlankLine_cons, startsBlank_iff hs, ← ih]
      by_cases hc : c = '\n'
      · -- the piece that was the first one now stands behind a newline
        subst hc
        rw [pieces_newline, hs, List.drop_succ_cons, List.drop_zero]
        cases rest with
        | nil => simp
        | cons next rest => simp
      · rw [pieces_cons hc hs, List.drop_succ_cons, List.drop_zero]
        simp [hc]

/-- `containsBlankLine` on a range of a text: it is what `HasBlankLine` says of the text that stands
    there. -/
theorem containsBlankLine_iff {t : Text} {start stop : Nat} (h : t.slice? start stop = some s) :
    t.containsBlankLine start stop = true ↔ s.HasBlankLine := by
  obtain ⟨-, -, hstop⟩ := isSome_slice?_iff.mp (Option.isSome_of_eq_some h)
  rw [containsBlankLine, Nat.min_eq_left (le_size_of_isBoundary hstop), h]
  exact any_isBlank_pieces_iff

end Graft.Text
