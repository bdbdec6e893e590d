import Graft.Proofs.Text.Lines

/-!
# `Graft.Proofs.Text.LineStart` — the line starts around a position

A scan back from a position comes to the last line start that is not behind it (`isLineStart_startOfLine`,
`le_startOfLine`). A scan forward comes to the first line start behind it (`nextLineStart_le_of_isLineStart`)
or, where there is none, to the end of the text (`lt_nextLineStart_or_eq_size`). This is so at any position,
also inside a character and past the end, so that each scan is told by where lines start and by nothing
else.

Both scans go through the text character by character, and so do the proofs: a line starts behind the first
character if that is a newline, and otherwise where one starts in what comes after it.
-/

namespace Graft.Text

variable {t : Text} {p q : Nat}

/-! ## Behind a newline -/

theorem followsNewline_cons {c : Char} {cs : Text} :
    followsNewline (c :: cs) q = true ↔
      c = '\n' ∧ q = 1 ∨ ∃ r, followsNewline cs r = true ∧ q = c.utf8Size + r := by
  have hpos := c.utf8Size_pos
  rw [followsNewline]
  by_cases hle : c.utf8Size ≤ q
  · rw [if_pos hle, Bool.or_eq_true, Bool.and_eq_true, decide_eq_true_eq, decide_eq_true_eq]
    constructor
    · rintro (hc | hrest)
      · exact .inl hc
      · exact .inr ⟨q - c.utf8Size, hrest, by omega⟩
    · rintro (hc | ⟨r, hrest, rfl⟩)
      · exact .inl hc
      · rw [Nat.add_sub_cancel_left]
        exact .inr hrest
  · rw [if_neg hle]
    constructor
    · intro h
      cases h
    · rintro (⟨rfl, rfl⟩ | ⟨r, -, rfl⟩)
      · exact absurd (Nat.le_refl 1) hle
      · exact absurd (Nat.le_add_right _ _) hle

theorem pos_of_followsNewline (h : t.followsNewline q = true) : 0 < q := by
  obtain ⟨s, r, -, rfl⟩ := followsNewline_iff.mp h
  exact Nat.succ_pos _

theorem isLineStart_iff : t.isLineStart q = true ↔ q = 0 ∨ t.followsNewline q = true := by
  simp [isLineStart]

@[simp] theorem isLineStart_zero (t : Text) : t.isLineStart 0 = true :=
  isLineStart_iff.mpr (.inl rfl)

theorem followsNewline_of_lt (hq : t.isLineStart q = true) (hlt : p < q) :
    t.followsNewline q = true := by
  rcases isLineStart_iff.mp hq with rfl | h
  · exact absurd hlt (Nat.not_lt_zero p)
  · exact h

/-! ## The scan forward -/

/-- Where `nextLineStart` ends: at a later position that follows a newline, or at the end of the text if
    no such position is left. -/
theorem lt_nextLineStart_or_eq_size (t : Text) (p : Nat) :
    p < t.nextLineStart p ∧ t.followsNewline (t.nextLineStart p) = true ∨
      t.nextLineStart p = t.size ∧ ∀ q, t.followsNewline q = true → q ≤ p := by
  induction t generalizing p with
  | nil => exact .inr ⟨rfl, fun q h => by simp [followsNewline] at h⟩
  | cons c cs ih =>
      have hpos := c.utf8Size_pos
      rw [nextLineStart]
      by_cases hc : p = 0 ∧ c = '\n'
      · rw [if_pos hc]
        exact .inl ⟨by omega, followsNewline_cons.mpr (.inl ⟨hc.2, rfl⟩)⟩
      rw [if_neg hc]
      rcases ih (p - c.utf8Size) with ⟨hlt, hnext⟩ | ⟨hend, hnone⟩
      · exact .inl ⟨by omega, followsNewline_cons.mpr (.inr ⟨_, hnext, rfl⟩)⟩
      · right
        refine ⟨by rw [hend, size_cons], ?_⟩
        intro q hq
        rcases followsNewline_cons.mp hq with ⟨rfl, rfl⟩ | ⟨r, hr, rfl⟩
        · -- a newline that stands at the position itself has been dealt with
          have hp : p ≠ 0 := fun hzero => hc ⟨hzero, rfl⟩
          omega
        · have hle := hnone r hr
          have hlt := pos_of_followsNewline hr
          omega

/-- `nextLineStart` is the first one: it passes over no line start. -/
theorem nextLineStart_le_of_isLineStart (hq : t.isLineStart q = true) (hlt : p < q) :
    t.nextLineStart p ≤ q := by
  have hfollows := followsNewline_of_lt hq hlt
  clear hq
  induction t generalizing p q with
  | nil => exact Nat.zero_le q
  | cons c cs ih =>
      have hpos := c.utf8Size_pos
      rw [nextLineStart]
      by_cases hc : p = 0 ∧ c = '\n'
      · rw [if_pos hc]
        omega
      rw [if_neg hc]
      rcases followsNewline_cons.mp hfollows with ⟨rfl, rfl⟩ | ⟨r, hr, rfl⟩
      · exact absurd ⟨by omega, rfl⟩ hc
      · have hlt' := pos_of_followsNewline hr
        have hle := ih (p := p - c.utf8Size) (by omega) hr
        omega

/-! ## The scan back -/

/-- Where `startOfLine` ends: at a line start that is not behind the position. -/
theorem isLineStart_startOfLine (t : Text) (p : Nat) :
    t.isLineStart (t.startOfLine p) = true ∧ t.startOfLine p ≤ p := by
  induction t generalizing p with
  | nil => exact ⟨isLineStart_zero _, Nat.zero_le p⟩
  | cons c cs ih =>
      have hpos := c.utf8Size_pos
      rw [startOfLine]
      by_cases hle : c.utf8Size ≤ p
      · obtain ⟨hstart, hback⟩ := ih (p - c.utf8Size)
        rw [if_pos hle]
        dsimp only
        by_cases hrest : startOfLine cs (p - c.utf8Size) = 0
        · rw [if_pos hrest]
          by_cases hc : c = '\n'
          · rw [if_pos hc]
            exact ⟨isLineStart_iff.mpr (.inr (followsNewline_cons.mpr (.inl ⟨hc, rfl⟩))), by omega⟩
          · rw [if_neg hc]
            exact ⟨isLineStart_zero _, Nat.zero_le p⟩
        · rw [if_neg hrest]
          have hfollows := followsNewline_of_lt hstart (Nat.pos_of_ne_zero hrest)
          refine ⟨?_, by omega⟩
          exact isLineStart_iff.mpr (.inr (followsNewline_cons.mpr (.inr ⟨_, hfollows, rfl⟩)))
      · rw [if_neg hle]
        exact ⟨isLineStart_zero _, Nat.zero_le p⟩

/-- `startOfLine` is the last one: it passes over no line start on the way back. -/
theorem le_startOfLine (hq : t.isLineStart q = true) (hle : q ≤ p) : q ≤ t.startOfLine p := by
  rcases isLineStart_iff.mp hq with rfl | hfollows
  · exact Nat.zero_le _
  clear hq
  induction t generalizing p q with
  | nil => simp [followsNewline] at hfollows
  | cons c cs ih =>
      have hpos := c.utf8Size_pos
      have hwidth : c.utf8Size ≤ p := by
        rcases followsNewline_cons.mp hfollows with ⟨rfl, rfl⟩ | ⟨r, -, rfl⟩
        · exact hle
        · omega
      rw [startOfLine, if_pos hwidth]
      dsimp only
      rcases followsNewline_cons.mp hfollows with ⟨rfl, rfl⟩ | ⟨r, hr, rfl⟩
      · rw [if_pos rfl]
        split <;> omega
      · have hlt := pos_of_followsNewline hr
        have hback := ih (p := p - c.utf8Size) (by omega) hr
        rw [if_neg (by omega)]
        omega

end Graft.Text
