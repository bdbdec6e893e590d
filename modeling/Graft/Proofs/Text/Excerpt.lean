import Graft.Proofs.Text.Checked
import Graft.Proofs.Text.Location

/-!
# `Graft.Proofs.Text.Excerpt` — the lines that a range touches

The quotation of a range shows the line of its first position and the line of its last one, whatever the
range (`LineIndex.excerpt_eq_quotedLines`): lines are the pieces of the text between its newlines
(`Text.quotedLine`), and their numbers are those that positions are reported with.

A range ends before its `stop`. The table is asked for the line of `stop`, and where a line starts there the
answer is one too many: that is when the position before it lies on another line (`lineOf_succ`), so that
the corrected answer is the line of the last position (`lastLine_eq`). A range without a last position ends
on no later line than it starts on.
-/

namespace Graft

namespace Text

/-- A line of a text as it is quoted: what stands between its newlines under its number, or a mark in place
    of a line that begins at the end of the text. -/
def quotedLine (t : Text) (line : Nat) : Text :=
  if (LineIndex.ofText t).lineStart? line = some t.size then "    eof\n".toList
  else List.leftpad 7 ' ' (ofNat line) ++ [':', ' '] ++ (t.pieces[line - 1]?).getD [] ++ ['\n']

/-- The quotation of two lines and what is between them: a heading with their numbers, the first one, a mark
    in place of the lines between them, and the last one if it is another one. -/
def quotedLines (t : Text) (first last : Nat) : Text :=
  (if first < last then "lines ".toList ++ ofNat first ++ ['-'] ++ ofNat last ++ ['\n']
    else "line ".toList ++ ofNat first ++ ['\n'])
  ++ t.quotedLine first
  ++ (if first + 1 < last then "    ...\n".toList else [])
  ++ (if first < last then t.quotedLine last else [])

end Text

namespace LineIndex

variable {t : Text} {p start stop : Nat}

/-! ## Lines of neighbours -/

/-- `lineOf` gives positions past the end the line of the end. -/
theorem lineOf_min (t : Text) (p : Nat) : (ofText t).lineOf (min p t.size) = (ofText t).lineOf p := by
  have hsorted : ∀ n, ((ofText t).starts.takeWhile (· ≤ n)).Pairwise (· < ·) := fun n =>
    (pairwise_starts t).sublist (List.takeWhile_prefix _).sublist
  have hsame : (ofText t).starts.takeWhile (· ≤ min p t.size)
      = (ofText t).starts.takeWhile (· ≤ p) := by
    refine (hsorted _).eq_of_mem_iff (hsorted _) ?_
    intro start
    rw [mem_takeWhile_iff (pairwise_starts t), mem_takeWhile_iff (pairwise_starts t), Nat.le_min]
    constructor
    · rintro ⟨hmem, hle, -⟩
      exact ⟨hmem, hle⟩
    · rintro ⟨hmem, hle⟩
      exact ⟨hmem, hle, Text.le_size_of_isBoundary (isBoundary_of_mem_starts hmem)⟩
  exact congrArg List.length hsame

theorem line_locate (t : Text) (p : Nat) : ((ofText t).locate t p).line = (ofText t).lineOf p :=
  lineOf_min t p

/-- One step of `lineOf`: the count goes up exactly where `isLineStart` holds. -/
theorem lineOf_succ (t : Text) (p : Nat) :
    (ofText t).lineOf (p + 1) = (ofText t).lineOf p + if t.isLineStart (p + 1) then 1 else 0 := by
  rw [lineOf_eq, lineOf_eq, Text.newlinesBefore, Text.newlinesBefore, List.range_succ,
    List.countP_append, List.countP_singleton]
  simp [Text.isLineStart_succ_iff, Nat.add_assoc]

/-- The test that `lastLine` makes on the end of a range: `lineStart?` gives the position back where a
    line starts there. -/
theorem lineStart?_lineOf_eq_iff :
    (ofText t).lineStart? ((ofText t).lineOf p) = some p ↔ t.isLineStart p = true := by
  obtain ⟨hscan, hback⟩ := Text.isLineStart_startOfLine t p
  rw [lineStart?_lineOf, Option.some.injEq]
  constructor
  · intro h
    rw [h] at hscan
    exact hscan
  · intro h
    exact Nat.le_antisymm hback (Text.le_startOfLine h (Nat.le_refl p))

/-- `lastLine` of a range with a last position is the line of this position, by `lineOf_succ`. -/
theorem lastLine_eq (h : start < stop) : (ofText t).lastLine start stop = (ofText t).lineOf (stop - 1) := by
  obtain ⟨last, rfl⟩ := Nat.exists_eq_add_one_of_ne_zero (Nat.ne_of_gt (Nat.zero_lt_of_lt h))
  have hmono := lineOf_mono t (Nat.le_of_lt_succ h)
  have hsucc := lineOf_succ t last
  rw [lastLine, Nat.add_sub_cancel]
  by_cases hstart : t.isLineStart (last + 1) = true
  · rw [if_pos hstart] at hsucc
    rw [if_pos ⟨h, by omega, lineStart?_lineOf_eq_iff.mpr hstart⟩, hsucc, Nat.add_sub_cancel]
  · rw [if_neg hstart] at hsucc
    rw [if_neg fun hcond => hstart (lineStart?_lineOf_eq_iff.mp hcond.2.2), hsucc, Nat.add_zero]

/-- `lastLine` of a range without a position is no later than the line of its start, so that only that
    line is shown. -/
theorem lastLine_le (h : stop ≤ start) : (ofText t).lastLine start stop ≤ (ofText t).lineOf start := by
  rw [lastLine, if_neg fun hcond => Nat.not_lt_of_le h hcond.1]
  exact lineOf_mono t h

/-! ## Quoting a line -/

/-- `numberedLine`, which cuts a line out of the text by its start in the table, shows the piece that
    `quotedLine` takes. -/
theorem numberedLine_eq {line : Nat} (h : (ofText t).lineStart? line = some start) :
    (ofText t).numberedLine t line = t.quotedLine line := by
  obtain ⟨body, rest, hpiece, hfrom, hplain, hend⟩ := exists_piece_of_lineStart? h
  have hle := Text.le_size_of_isBoundary (Text.isBoundary_of_from? hfrom)
  rw [numberedLine, Text.quotedLine, h]
  dsimp only
  by_cases hlt : start < t.size
  · have hbody : (body ++ rest).takeWhile (· ≠ '\n') = body := by
      have hkeep : ∀ c ∈ body, decide (c ≠ '\n') = true := fun c hc =>
        decide_eq_true fun heq => hplain (heq ▸ hc)
      rw [List.takeWhile_append_of_pos hkeep]
      rcases hend with rfl | ⟨more, rfl⟩
      · simp
      · simp
    have hne : ¬ some start = some t.size := by
      rw [Option.some.injEq]
      exact Nat.ne_of_lt hlt
    rw [if_pos hlt, if_neg hne, hfrom, hpiece, Option.getD_some, Option.getD_some, hbody]
    rfl
  · rw [if_neg hlt, if_pos (congrArg some (by omega))]

theorem numberedLine_lineOf (t : Text) (p : Nat) :
    (ofText t).numberedLine t ((ofText t).lineOf p) = t.quotedLine ((ofText t).lineOf p) :=
  numberedLine_eq (lineStart?_lineOf t p)

theorem lineOf_le_length_pieces (t : Text) (p : Nat) : (ofText t).lineOf p ≤ t.pieces.length := by
  obtain ⟨body, rest, hpiece, -⟩ := exists_piece_lineOf t p
  obtain ⟨hlt, -⟩ := List.getElem?_eq_some_iff.mp hpiece
  omega

/-! ## Quoting a range -/

/-- `excerpt` of a range with a last position, by `lastLine_eq`. -/
theorem excerpt_of_lt (h : start < stop) : (ofText t).excerpt t start stop
    = t.quotedLines ((ofText t).lineOf start) ((ofText t).lineOf (stop - 1)) := by
  rw [excerpt, lastLine_eq h, numberedLine_lineOf, numberedLine_lineOf, Text.quotedLines]
  by_cases hother : (ofText t).lineOf start < (ofText t).lineOf (stop - 1)
  · simp only [if_pos hother, List.append_assoc]
  · -- one line leaves no room for others between it and itself
    have hnone : ¬ (ofText t).lineOf start + 1 < (ofText t).lineOf (stop - 1) := by omega
    simp only [if_neg hother, if_neg hnone, List.append_nil, List.append_assoc]

/-- `excerpt` of a range without a position, by `lastLine_le`. -/
theorem excerpt_of_le (h : stop ≤ start) : (ofText t).excerpt t start stop
    = t.quotedLines ((ofText t).lineOf start) ((ofText t).lineOf start) := by
  have hback := lastLine_le (t := t) h
  rw [excerpt, numberedLine_lineOf, if_neg (Nat.not_lt_of_le hback), Text.quotedLines]
  simp only [Nat.lt_irrefl, Nat.not_succ_lt_self, if_false, List.append_nil, List.append_assoc]

/-- **Quotations.** `excerpt` of any range shows the line that `locate` reports its start on and the line
    that it reports its last position on (`quotedLines`), or the first of them alone if the range has no
    position. The checked version `excerptBy?` succeeds with it: no step can fail. -/
theorem excerpt_eq_quotedLines (t : Text) (start stop : Nat) {limit : Nat}
    (hlimit : t.size + 2 ≤ limit) :
    let x := ofText t
    let first := (x.locate t start).line
    let last := if start < stop then (x.locate t (stop - 1)).line else first
    (1 ≤ first ∧ first ≤ last ∧ last ≤ t.pieces.length) ∧
      x.excerpt t start stop = t.quotedLines first last ∧
      (Checked.lineIndex? limit t).bind (Checked.excerptBy? limit · t start stop)
        = some (t.quotedLines first last) := by
  have hchecked : (Checked.lineIndex? limit t).bind (Checked.excerptBy? limit · t start stop)
      = some ((ofText t).excerpt t start stop) := by
    rw [Checked.lineIndex?_eq (Nat.le_of_add_right_le hlimit), Option.bind_some]
    exact Checked.excerptBy?_eq hlimit start stop
  dsimp only
  rw [hchecked, line_locate, line_locate]
  refine ⟨⟨one_le_lineOf t start, ?_⟩, ?_⟩
  · by_cases hlt : start < stop
    · rw [if_pos hlt]
      exact ⟨lineOf_mono t (Nat.le_sub_one_of_lt hlt), lineOf_le_length_pieces t _⟩
    · rw [if_neg hlt]
      exact ⟨Nat.le_refl _, lineOf_le_length_pieces t _⟩
  · by_cases hlt : start < stop
    · rw [if_pos hlt, excerpt_of_lt hlt]
      exact ⟨rfl, rfl⟩
    · rw [if_neg hlt, excerpt_of_le (Nat.le_of_not_lt hlt)]
      exact ⟨rfl, rfl⟩

/-- `excerpt_eq_quotedLines` for a range over the first three lines that ends where the fourth one starts,
    and for an inverted one at the end of the text. -/
theorem excerpt_eq_quotedLines_ellipsis :
    (ofText ['a', '\n', 'b', '\n', 'é', '\n']).excerpt ['a', '\n', 'b', '\n', 'é', '\n'] 0 7
        = "lines 1-3\n      1: a\n    ...\n      3: é\n".toList ∧
      (ofText ['a', '\n', 'b', '\n', 'é', '\n']).excerpt ['a', '\n', 'b', '\n', 'é', '\n'] 9 7
        = "line 4\n    eof\n".toList := by
  obtain ⟨-, hwhole, -⟩ := @excerpt_eq_quotedLines ['a', '\n', 'b', '\n', 'é', '\n'] 0 7
    (UInt64.size - 1) (by decide)
  obtain ⟨-, hinverted, -⟩ := @excerpt_eq_quotedLines ['a', '\n', 'b', '\n', 'é', '\n'] 9 7
    (UInt64.size - 1) (by decide)
  exact ⟨hwhole.trans (by decide), hinverted.trans (by decide)⟩

end LineIndex

end Graft
