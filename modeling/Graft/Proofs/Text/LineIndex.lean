import Graft.Proofs.Text.LineAt
import Graft.Text.LineIndex

/-!
# `Graft.Proofs.Text.LineIndex` — the table of line starts

The index of a text lists the positions at which a line begins, and nothing else
(`LineIndex.mem_starts_iff`). Every position, however far out, therefore lies on one of the lines of the
table (`LineIndex.exists_start_lineOf`), and what is reported of it lies within the text
(`LineIndex.inside_locate`).
-/

namespace Graft

/-- A location of a text: not past its end, on one of its lines, and counted from one. -/
structure Location.Inside (t : Text) (l : Location) : Prop where
  offset_le : l.offset ≤ t.size
  one_le_line : 1 ≤ l.line
  line_le : l.line ≤ (LineIndex.ofText t).lineCount
  one_le_column : 1 ≤ l.column

/-- Every character counts at least one in `size`. -/
theorem Text.length_le_size (t : Text) : t.length ≤ t.size := by
  induction t with
  | nil => exact Nat.le_refl _
  | cons c cs ih =>
      have := c.utf8Size_pos
      rw [List.length_cons, size_cons]
      omega

namespace LineIndex

variable {t : Text} {start : Nat}

/-! ## The table -/

theorem mem_startsAfterNewlines_cons {c : Char} {cs : Text} {offset : Nat} :
    start ∈ startsAfterNewlines (c :: cs) offset ↔
      c = '\n' ∧ start = offset + 1 ∨ start ∈ startsAfterNewlines cs (offset + c.utf8Size) := by
  rw [startsAfterNewlines]
  by_cases hc : c = '\n'
  · subst hc
    rw [if_pos rfl, List.mem_cons]
    exact ⟨fun h => h.imp_left (⟨rfl, ·⟩), fun h => h.imp_left (·.2)⟩
  · rw [if_neg hc]
    exact ⟨.inr, fun h => h.resolve_left fun h => hc h.1⟩

/-- `startsAfterNewlines` holds the position behind every newline, counted from its offset. -/
theorem mem_startsAfterNewlines {offset : Nat} :
    start ∈ startsAfterNewlines t offset ↔
      ∃ s r, t = s ++ '\n' :: r ∧ offset + (s.size + 1) = start := by
  induction t generalizing offset with
  | nil => simp [startsAfterNewlines]
  | cons c cs ih =>
      rw [mem_startsAfterNewlines_cons, ih]
      constructor
      · rintro (⟨rfl, rfl⟩ | ⟨s, r, rfl, rfl⟩)
        · exact ⟨[], cs, rfl, rfl⟩
        · exact ⟨c :: s, r, rfl, by rw [Text.size_cons]; omega⟩
      · rintro ⟨s, r, hsplit, rfl⟩
        cases s with
        | nil =>
            obtain ⟨rfl, rfl⟩ := List.cons.inj hsplit
            exact .inl ⟨rfl, rfl⟩
        | cons d s =>
            obtain ⟨rfl, rfl⟩ := List.cons.inj hsplit
            exact .inr ⟨s, r, rfl, by rw [Text.size_cons]; omega⟩

/-- The table lists exactly the positions where `isLineStart` holds, so that look-ups and scans can be
    compared. -/
theorem mem_starts_iff : start ∈ (ofText t).starts ↔ t.isLineStart start = true := by
  rw [ofText, List.mem_cons, mem_startsAfterNewlines, Text.isLineStart, Bool.or_eq_true,
    decide_eq_true_eq, Text.followsNewline_iff]
  simp

/-- Entries of the table are cuts, and the text can be sliced at them. -/
theorem isBoundary_of_mem_starts (h : start ∈ (ofText t).starts) : t.isBoundary start = true := by
  rcases Bool.or_eq_true_iff.mp (mem_starts_iff.mp h) with hzero | hfollows
  · obtain rfl : start = 0 := by simpa using hzero
    exact Text.isBoundary_zero t
  · obtain ⟨s, r, rfl, rfl⟩ := Text.followsNewline_iff.mp hfollows
    exact Text.isBoundary_iff.mpr ⟨s ++ ['\n'], r, by simp, by simp; rfl⟩

/-- Each entry has a newline of its own. -/
theorem length_startsAfterNewlines_le (t : Text) (offset : Nat) :
    (startsAfterNewlines t offset).length ≤ t.size := by
  induction t generalizing offset with
  | nil => exact Nat.le_refl _
  | cons c cs ih =>
      have hpos := c.utf8Size_pos
      unfold startsAfterNewlines
      split
      · have := ih (offset + 1)
        rw [List.length_cons, Text.size_cons]
        omega
      · have := ih (offset + c.utf8Size)
        rw [Text.size_cons]
        omega

/-- `lineCount` is bounded by the bytes: each entry but the first has a newline of its own. -/
theorem lineCount_le (t : Text) : (ofText t).lineCount ≤ t.size + 1 :=
  Nat.succ_le_succ (length_startsAfterNewlines_le t 0)

/-! ## Looking up -/

theorem lineOf_le (x : LineIndex) (p : Nat) : x.lineOf p ≤ x.lineCount :=
  (List.takeWhile_prefix _).length_le

/-- `lineOf` is never zero: the first entry is zero, and no position lies before it. -/
theorem one_le_lineOf (t : Text) (p : Nat) : 1 ≤ (ofText t).lineOf p := by
  simp [ofText, lineOf]

/-- `lineOf` always indexes the table, at an entry that is not behind the position. -/
theorem exists_start_lineOf (t : Text) (p : Nat) :
    ∃ start, (ofText t).starts[(ofText t).lineOf p - 1]? = some start ∧ start ≤ p ∧
      start ∈ (ofText t).starts := by
  have hone := one_le_lineOf t p
  have hlt : (ofText t).lineOf p - 1 < ((ofText t).starts.takeWhile (· ≤ p)).length := by
    change (ofText t).lineOf p - 1 < (ofText t).lineOf p
    omega
  have hmem := List.getElem_mem hlt
  have hprefix : (ofText t).starts.takeWhile (· ≤ p) <+: (ofText t).starts :=
    List.takeWhile_prefix _
  have hle := List.all_eq_true.mp (List.all_takeWhile (p := (· ≤ p))) _ hmem
  exact ⟨_, List.prefix_iff_getElem?.mp hprefix _ hlt, by simpa using hle, hprefix.subset hmem⟩

/-- What `locate` reports is `Inside` the text, for any position. -/
theorem inside_locate (t : Text) (p : Nat) : ((ofText t).locate t p).Inside t where
  offset_le := Nat.min_le_right p t.size
  one_le_line := one_le_lineOf t _
  line_le := lineOf_le _ _
  one_le_column := Nat.succ_le_succ (Nat.zero_le _)

end LineIndex

end Graft
