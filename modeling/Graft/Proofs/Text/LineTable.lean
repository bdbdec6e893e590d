import Mathlib.Data.List.Sort
import Mathlib.Data.List.TakeWhile
import Graft.Proofs.Text.Bytes
import Graft.Proofs.Text.LineIndex

/-!
# `Graft.Proofs.Text.LineTable` — the table against the text

Three things tell the line of a position: the table of line starts, a scan through the text, and the
newlines in front of the position. They agree (`LineIndex.lookups_eq_scans`). Of a table in ascending
order a look-up by position finds all entries up to the position (`mem_takeWhile_iff`), and those are the
line starts that a scan finds there (`takeWhile_starts`). The last of them is where a scan back ends
(`lineStart?_lineOf`), and the entry behind it is where a scan forward ends (`lineStart?_lineOf_succ`).

Columns are counted from there. Where the text can be cut they count characters
(`locate_eq_of_isBoundary`), so that no two cuts are reported alike (`eq_of_line_of_column`).
-/

namespace Graft

namespace Text

variable {t : Text} {p : Nat}

/-- A newline stands at a position. -/
def NewlineAt (t : Text) (p : Nat) : Prop :=
  t.slice? p (p + 1) = some ['\n']

instance (t : Text) (p : Nat) : Decidable (t.NewlineAt p) :=
  inferInstanceAs (Decidable (_ = _))

/-- How many newlines stand in front of a position. -/
def newlinesBefore (t : Text) (p : Nat) : Nat :=
  (List.range p).countP fun q => decide (t.NewlineAt q)

/-- `NewlineAt`, which looks at the bytes, and `followsNewline`, which the scans use. -/
theorem newlineAt_iff : t.NewlineAt p ↔ t.followsNewline (p + 1) = true := by
  rw [NewlineAt, slice?_eq_some_iff, followsNewline_iff]
  constructor
  · rintro ⟨s, r, rfl, rfl, -⟩
    exact ⟨s, r, by simp, rfl⟩
  · rintro ⟨s, r, rfl, hsize⟩
    exact ⟨s, r, by simp, by omega, rfl⟩

theorem isLineStart_succ_iff : t.isLineStart (p + 1) = true ↔ t.NewlineAt p := by
  simp [isLineStart_iff, newlineAt_iff]

end Text

namespace LineIndex

variable {t : Text} {p q : Nat}

/-! ## The table in order -/

theorem lt_of_mem_startsAfterNewlines {start offset : Nat}
    (h : start ∈ startsAfterNewlines t offset) : offset < start := by
  obtain ⟨s, r, -, rfl⟩ := mem_startsAfterNewlines.mp h
  omega

theorem pairwise_startsAfterNewlines (t : Text) (offset : Nat) :
    (startsAfterNewlines t offset).Pairwise (· < ·) := by
  induction t generalizing offset with
  | nil => exact List.Pairwise.nil
  | cons c cs ih =>
      rw [startsAfterNewlines]
      by_cases hc : c = '\n'
      · rw [if_pos hc]
        exact List.pairwise_cons.mpr ⟨fun _ h => lt_of_mem_startsAfterNewlines h, ih _⟩
      · rw [if_neg hc]
        exact ih _

/-- The entries of the table ascend, which `mem_takeWhile_iff` needs of a list. -/
theorem pairwise_starts (t : Text) : (ofText t).starts.Pairwise (· < ·) := by
  apply List.pairwise_cons.mpr
  exact ⟨fun _ h => lt_of_mem_startsAfterNewlines h, pairwise_startsAfterNewlines t 0⟩

/-! ## Looking up in a list in ascending order -/

/-- In ascending order, `takeWhile` takes all of the entries up to a number, as `filter` would. -/
theorem mem_takeWhile_iff {l : List Nat} (h : l.Pairwise (· < ·)) :
    q ∈ l.takeWhile (· ≤ p) ↔ q ∈ l ∧ q ≤ p := by
  constructor
  · intro hq
    exact ⟨(List.takeWhile_prefix _).subset hq, by simpa using List.mem_takeWhile_imp hq⟩
  · rintro ⟨hq, hle⟩
    induction l with
    | nil => cases hq
    | cons n l ih =>
        obtain ⟨hfirst, hrest⟩ := List.pairwise_cons.mp h
        rcases List.mem_cons.mp hq with rfl | hq
        · simp [hle]
        · have hn : n ≤ p := Nat.le_of_lt (Nat.lt_of_lt_of_le (hfirst q hq) hle)
          rw [List.takeWhile_cons_of_pos (by simpa using hn)]
          exact List.mem_cons_of_mem n (ih hrest hq)

/-- The last entry that `takeWhile` takes is the greatest one up to the number. -/
theorem getElem?_length_takeWhile_sub_one {l : List Nat} {last : Nat} (h : l.Pairwise (· < ·))
    (hlast : l[(l.takeWhile (· ≤ p)).length - 1]? = some last) (hq : q ∈ l) (hle : q ≤ p) :
    q ≤ last := by
  obtain ⟨i, hi, rfl⟩ := List.getElem_of_mem ((mem_takeWhile_iff h).mpr ⟨hq, hle⟩)
  obtain ⟨hlt, rfl⟩ := List.getElem?_eq_some_iff.mp hlast
  rw [(List.takeWhile_prefix _).getElem hi]
  rcases Nat.lt_or_eq_of_le (Nat.le_sub_one_of_lt hi) with hbefore | heq
  · exact Nat.le_of_lt (List.pairwise_iff_getElem.mp h _ _ _ _ hbefore)
  · simp [heq]

/-- The entry behind those that `takeWhile` takes is the least one above the number. -/
theorem getElem?_length_takeWhile {l : List Nat} {next : Nat} (h : l.Pairwise (· < ·))
    (hnext : l[(l.takeWhile (· ≤ p)).length]? = some next) :
    next ∈ l ∧ p < next ∧ ∀ q ∈ l, p < q → next ≤ q := by
  induction l with
  | nil => cases hnext
  | cons n l ih =>
      obtain ⟨hfirst, hrest⟩ := List.pairwise_cons.mp h
      by_cases hn : n ≤ p
      · rw [List.takeWhile_cons_of_pos (by simpa using hn)] at hnext
        obtain ⟨hmem, hlt, hleast⟩ := ih hrest hnext
        refine ⟨List.mem_cons_of_mem n hmem, hlt, ?_⟩
        intro q hq hpq
        rcases List.mem_cons.mp hq with rfl | hq
        · exact absurd hn (Nat.not_le_of_lt hpq)
        · exact hleast q hq hpq
      · rw [List.takeWhile_cons_of_neg (by simpa using hn)] at hnext
        obtain rfl : n = next := by simpa using hnext
        refine ⟨List.mem_cons_self .., Nat.lt_of_not_le hn, ?_⟩
        intro q hq _
        rcases List.mem_cons.mp hq with rfl | hq
        · exact Nat.le_refl q
        · exact Nat.le_of_lt (hfirst q hq)

/-! ## The table against scans -/

/-- The entries that `lineOf` counts are the line starts that a scan up to the position comes by. -/
theorem takeWhile_starts (t : Text) (p : Nat) :
    (ofText t).starts.takeWhile (· ≤ p) = (List.range (p + 1)).filter t.isLineStart := by
  have hsub : ((ofText t).starts.takeWhile (· ≤ p)).Sublist (ofText t).starts :=
    (List.takeWhile_prefix _).sublist
  refine ((pairwise_starts t).sublist hsub).eq_of_mem_iff (List.pairwise_lt_range.filter _) ?_
  intro q
  rw [mem_takeWhile_iff (pairwise_starts t), mem_starts_iff, List.mem_filter, List.mem_range,
    Nat.lt_succ_iff, and_comm]

/-- `lineOf` counts newlines: it is one more than `newlinesBefore`. -/
theorem lineOf_eq (t : Text) (p : Nat) : (ofText t).lineOf p = 1 + t.newlinesBefore p := by
  have hshift : t.isLineStart ∘ Nat.succ = fun q => decide (t.NewlineAt q) := by
    funext q
    rw [Function.comp_apply, Bool.eq_iff_iff, Nat.succ_eq_add_one, Text.isLineStart_succ_iff,
      decide_eq_true_eq]
  calc
    (ofText t).lineOf p = (List.range (p + 1)).countP t.isLineStart := by
      rw [lineOf, takeWhile_starts, List.countP_eq_length_filter]
    _ = (List.range p).countP (t.isLineStart ∘ Nat.succ) + 1 := by
      rw [List.range_succ_eq_map, List.countP_cons_of_pos (Text.isLineStart_zero t), List.countP_map]
    _ = 1 + t.newlinesBefore p := by
      rw [hshift, Nat.add_comm]
      rfl

/-- The table agrees with the scan back: `lineStart?` of the line of a position is `startOfLine`. -/
theorem lineStart?_lineOf (t : Text) (p : Nat) :
    (ofText t).lineStart? ((ofText t).lineOf p) = some (t.startOfLine p) := by
  obtain ⟨start, hstart, hle, hmem⟩ := exists_start_lineOf t p
  obtain ⟨hscan, hback⟩ := Text.isLineStart_startOfLine t p
  have hone := one_le_lineOf t p
  have hgreatest : t.startOfLine p ≤ start :=
    getElem?_length_takeWhile_sub_one (pairwise_starts t) hstart (mem_starts_iff.mpr hscan) hback
  have hscanned : start ≤ t.startOfLine p := Text.le_startOfLine (mem_starts_iff.mp hmem) hle
  rw [lineStart?, if_neg (by omega), hstart, Nat.le_antisymm hscanned hgreatest]

/-- The table agrees with the scan forward: `lineStart?` of the line behind is `nextLineStart`, or there
    is no such line and the scan ends with the text. -/
theorem lineStart?_lineOf_succ (t : Text) (p : Nat) :
    ((ofText t).lineStart? ((ofText t).lineOf p + 1)).getD t.size = t.nextLineStart p := by
  rw [lineStart?, if_neg (Nat.succ_ne_zero _), Nat.add_sub_cancel]
  cases hentry : (ofText t).starts[(ofText t).lineOf p]? with
  | none =>
      -- all line starts are entries up to the position
      have hall : (ofText t).starts.takeWhile (· ≤ p) = (ofText t).starts :=
        (List.takeWhile_prefix _).eq_of_length_le (List.getElem?_eq_none_iff.mp hentry)
      rcases Text.lt_nextLineStart_or_eq_size t p with ⟨hlt, hnext⟩ | ⟨hend, -⟩
      · have hmem := mem_starts_iff.mpr (Text.isLineStart_iff.mpr (.inr hnext))
        rw [← hall, mem_takeWhile_iff (pairwise_starts t)] at hmem
        exact absurd hmem.2 (Nat.not_le_of_lt hlt)
      · rw [Option.getD_none, hend]
  | some next =>
      obtain ⟨hmem, hlt, hleast⟩ := getElem?_length_takeWhile (pairwise_starts t) hentry
      have hstart := mem_starts_iff.mp hmem
      rw [Option.getD_some]
      apply Nat.le_antisymm
      · rcases Text.lt_nextLineStart_or_eq_size t p with ⟨hnext, hfollows⟩ | ⟨-, hnone⟩
        · exact hleast _ (mem_starts_iff.mpr (Text.isLineStart_iff.mpr (.inr hfollows))) hnext
        · exact absurd (hnone next (Text.followsNewline_of_lt hstart hlt)) (Nat.not_le_of_lt hlt)
      · exact Text.nextLineStart_le_of_isLineStart hstart hlt

theorem startOfLine_eq_of_lineOf (h : (ofText t).lineOf p = (ofText t).lineOf q) :
    t.startOfLine p = t.startOfLine q := by
  apply Option.some.inj
  rw [← lineStart?_lineOf, ← lineStart?_lineOf, h]

/-! ## Locations -/

/-- `locate` at a cut: the column counts the characters between `startOfLine` and the position. -/
theorem locate_eq_of_isBoundary (hp : t.isBoundary p = true) :
    ∃ before, t.slice? (t.startOfLine p) p = some before ∧
      (ofText t).locate t p = ⟨p, (ofText t).lineOf p, before.length + 1⟩ := by
  obtain ⟨hscan, hback⟩ := Text.isLineStart_startOfLine t p
  have hcut := isBoundary_of_mem_starts (mem_starts_iff.mpr hscan)
  obtain ⟨before, hbefore⟩ := Text.exists_slice? hback hcut hp
  refine ⟨before, hbefore, ?_⟩
  simp only [locate, Nat.min_eq_left (Text.le_size_of_isBoundary hp), lineStart?_lineOf,
    Option.getD_some, hbefore]

/-- `locate` is injective on cuts: on one line the characters in front of the two are as many, by
    `locate_eq_of_isBoundary`, and each is an initial part of the other. -/
theorem eq_of_line_of_column (hp : t.isBoundary p = true) (hq : t.isBoundary q = true)
    (hline : ((ofText t).locate t p).line = ((ofText t).locate t q).line)
    (hcolumn : ((ofText t).locate t p).column = ((ofText t).locate t q).column) : p = q := by
  wlog hle : p ≤ q with h
  · exact (h hq hp hline.symm hcolumn.symm (Nat.le_of_not_le hle)).symm
  obtain ⟨before, hbefore, hlocate⟩ := locate_eq_of_isBoundary hp
  obtain ⟨before', hbefore', hlocate'⟩ := locate_eq_of_isBoundary hq
  rw [hlocate, hlocate'] at hline hcolumn
  dsimp only at hline hcolumn
  have hstart := startOfLine_eq_of_lineOf hline
  -- what stands between the two cuts has no characters
  obtain ⟨between, hbetween⟩ := Text.exists_slice? hle hp hq
  have hsplit := Text.slice?_append hbefore hbetween
  rw [hstart, hbefore'] at hsplit
  have hlength := congrArg List.length (Option.some.inj hsplit)
  rw [List.length_append] at hlength
  obtain rfl : between = [] := List.length_eq_zero_iff.mp (by omega)
  exact Text.size_of_slice? hbetween

/-- **Look-ups.** What the index of a text tells is what scans of the text tell.

    - The table holds zero and the position behind each newline, in ascending order; a newline is a byte
      of the text.
    - `lineOf` is one more than `newlinesBefore`. Its line starts at `startOfLine`, and the next one at
      `nextLineStart`.
    - A cut is reported on its line with the number of characters in front of it there and one more
      (`locate`), and no other cut is reported so. -/
theorem lookups_eq_scans (t : Text) :
    let x := ofText t
    x.starts.Pairwise (· < ·) ∧
      (∀ p, t.NewlineAt p ↔ t.bytes[p]? = some '\n'.toUInt8) ∧
      (∀ start, start ∈ x.starts ↔ start = 0 ∨ ∃ p, t.NewlineAt p ∧ start = p + 1) ∧
      (∀ p, x.lineOf p = 1 + t.newlinesBefore p ∧
        x.lineStart? (x.lineOf p) = some (t.startOfLine p) ∧
        t.nextLineStart p = (x.lineStart? (x.lineOf p + 1)).getD t.size) ∧
      (∀ p, t.isBoundary p = true → ∃ before, t.slice? (t.startOfLine p) p = some before ∧
        (x.locate t p).line = x.lineOf p ∧ (x.locate t p).column = 1 + before.length) ∧
      ∀ p q, t.isBoundary p = true → t.isBoundary q = true →
        (x.locate t p).line = (x.locate t q).line →
        (x.locate t p).column = (x.locate t q).column → p = q := by
  intro x
  refine ⟨pairwise_starts t, fun p => (Text.getElem?_bytes_eq_iff rfl).symm, ?_, ?_, ?_, ?_⟩
  · intro start
    rw [mem_starts_iff]
    cases start with
    | zero => simp
    | succ p => simp [Text.isLineStart_succ_iff]
  · intro p
    exact ⟨lineOf_eq t p, lineStart?_lineOf t p, (lineStart?_lineOf_succ t p).symm⟩
  · intro p hp
    obtain ⟨before, hbefore, hlocate⟩ := locate_eq_of_isBoundary hp
    refine ⟨before, hbefore, ?_⟩
    show ((ofText t).locate t p).line = _ ∧ ((ofText t).locate t p).column = _
    rw [hlocate]
    exact ⟨rfl, Nat.add_comm _ _⟩
  · intro p q hp hq hline hcolumn
    exact eq_of_line_of_column hp hq hline hcolumn

/-- `lookups_eq_scans` for a text with an accented letter, an empty line, and no newline at its end. The
    empty line is the second one, and the position inside the letter lies on the first. -/
theorem lookups_eq_scans_emptyLine :
    (ofText ['é', '\n', '\n', 'b']).starts = [0, 3, 4] ∧
      (ofText ['é', '\n', '\n', 'b']).lineOf 3 = 1 + Text.newlinesBefore ['é', '\n', '\n', 'b'] 3 ∧
      Text.newlinesBefore ['é', '\n', '\n', 'b'] 3 = 1 ∧
      Text.nextLineStart ['é', '\n', '\n', 'b'] 1
        = ((ofText ['é', '\n', '\n', 'b']).lineStart? 2).getD 5 ∧
      ((ofText ['é', '\n', '\n', 'b']).locate ['é', '\n', '\n', 'b'] 5).line = 3 ∧
      ((ofText ['é', '\n', '\n', 'b']).locate ['é', '\n', '\n', 'b'] 5).column = 2 := by
  obtain ⟨-, -, -, hscans, hlocate, -⟩ := lookups_eq_scans ['é', '\n', '\n', 'b']
  obtain ⟨hline, -, -⟩ := hscans 3
  obtain ⟨-, -, hnext⟩ := hscans 1
  obtain ⟨before, hbefore, hline', hcolumn⟩ := hlocate 5 (by decide)
  obtain rfl : ['b'] = before := Option.some.inj hbefore
  exact ⟨by decide, hline, by decide, hnext, hline'.trans (by decide), hcolumn⟩

end LineIndex

end Graft
