import Graft.Proofs.Text.Cut
import Graft.Text.Lines

/-!
# `Graft.Proofs.Text.Lines` — going forward line by line

The next line start lies after every position but the end of the text, and a line begins there unless it
is the end (`isLineStart_nextLineStart`). A walk that goes on with the next line therefore comes to an
end, and passes each line start once: `lineStartsBetween` counts the ones that are left.
-/

namespace Graft.Text

/-! ## Line starts -/

/-- `followsNewline` as an equation between texts. -/
theorem followsNewline_iff {t : Text} {p : Nat} :
    t.followsNewline p = true ↔ ∃ s r, t = s ++ '\n' :: r ∧ size s + 1 = p := by
  induction t generalizing p with
  | nil => simp [followsNewline]
  | cons c cs ih =>
      have hpos := c.utf8Size_pos
      unfold followsNewline
      constructor
      · intro h
        split at h
        next hle =>
          rcases Bool.or_eq_true_iff.mp h with h | h
          · obtain ⟨hc, hp⟩ : c = '\n' ∧ p = 1 := by simpa using h
            exact ⟨[], cs, by rw [hc]; rfl, by rw [hp]; rfl⟩
          · obtain ⟨s, r, rfl, hs⟩ := ih.mp h
            refine ⟨c :: s, r, rfl, ?_⟩
            rw [size_cons]
            omega
        · cases h
      · rintro ⟨s, r, hsplit, rfl⟩
        cases s with
        | nil =>
            obtain ⟨rfl, rfl⟩ := List.cons.inj hsplit
            rfl
        | cons d s =>
            obtain ⟨rfl, rfl⟩ := List.cons.inj hsplit
            have hrest : followsNewline (s ++ '\n' :: r) (size s + 1) = true :=
              ih.mpr ⟨s, r, rfl, rfl⟩
            rw [size_cons, if_pos (by omega), Bool.or_eq_true_iff]
            right
            rw [Nat.add_assoc, Nat.add_sub_cancel_left]
            exact hrest

/-! ## The next line start -/

theorem nextLineStart_append (s r : Text) :
    nextLineStart (s ++ r) (size s) = size s + nextLineStart r 0 := by
  induction s with
  | nil => simp
  | cons c cs ih =>
      have := c.utf8Size_pos
      rw [List.cons_append, nextLineStart, size_cons, if_neg (by omega), Nat.add_sub_cancel_left, ih,
        Nat.add_assoc]

/-- The first step of `nextLineStart` on a text that is not empty: over a line, up to a newline or to the
    end. -/
theorem exists_line {r : Text} (h : r ≠ []) : ∃ line rest,
    r = line ++ rest ∧ size line = nextLineStart r 0 ∧ line ≠ [] ∧
      (rest = [] ∨ ∃ body, line = body ++ ['\n']) := by
  induction r with
  | nil => exact absurd rfl h
  | cons c cs ih =>
      unfold nextLineStart
      by_cases hc : c = '\n'
      · subst hc
        exact ⟨['\n'], cs, rfl, rfl, List.cons_ne_nil _ _, .inr ⟨[], rfl⟩⟩
      rw [if_neg (by simp [hc]), Nat.zero_sub]
      cases cs with
      | nil => exact ⟨[c], [], rfl, rfl, List.cons_ne_nil _ _, .inl rfl⟩
      | cons d ds =>
          obtain ⟨line, rest, hsplit, hsize, -, hend⟩ := ih (List.cons_ne_nil _ _)
          refine ⟨c :: line, rest, by rw [hsplit]; rfl, by rw [size_cons, hsize],
            List.cons_ne_nil _ _, ?_⟩
          rcases hend with hend | ⟨body, rfl⟩
          · exact .inl hend
          · exact .inr ⟨c :: body, rfl⟩

/-- `nextLineStart` before the end of a text goes forward to a cut, and a line begins there unless it is
    the end. The scans of the locators advance by this. -/
theorem isLineStart_nextLineStart {t : Text} {p : Nat} (hp : t.isBoundary p = true)
    (hlt : p < t.size) :
    p < t.nextLineStart p ∧ t.isBoundary (t.nextLineStart p) = true ∧
      (t.isLineStart (t.nextLineStart p) = true ∨ t.nextLineStart p = t.size) := by
  obtain ⟨s, r, rfl, rfl⟩ := isBoundary_iff.mp hp
  have hr : r ≠ [] := by
    rintro rfl
    simp at hlt
  obtain ⟨line, rest, rfl, hsize, hline, hend⟩ := exists_line hr
  have hpos : 0 < size line := by
    have : size line ≠ 0 := fun h => hline (size_eq_zero_iff.mp h)
    omega
  rw [nextLineStart_append, ← hsize, ← size_append, ← List.append_assoc]
  refine ⟨by rw [size_append]; omega, isBoundary_size_append _ _, ?_⟩
  -- the line reaches to the end of the text, or ends with a newline
  rcases hend with rfl | ⟨body, rfl⟩
  · right
    rw [List.append_nil]
  · left
    have hnewline : followsNewline (s ++ (body ++ ['\n']) ++ rest) (size (s ++ (body ++ ['\n'])))
        = true :=
      followsNewline_iff.mpr ⟨s ++ body, rest, by simp, by simp [Nat.add_assoc]; rfl⟩
    rw [isLineStart, hnewline, Bool.or_true]

/-- `nextLineStart` stays at the end of the text. -/
theorem nextLineStart_size (t : Text) : t.nextLineStart t.size = t.size := by
  have := nextLineStart_append t []
  rw [List.append_nil] at this
  exact this

/-- `isLineStart_nextLineStart` for `nextLineStartOrHere`, which does not move where a line begins. -/
theorem isLineStart_nextLineStartOrHere {t : Text} {p : Nat} (hp : t.isBoundary p = true) :
    p ≤ t.nextLineStartOrHere p ∧ t.isBoundary (t.nextLineStartOrHere p) = true ∧
      (t.isLineStart (t.nextLineStartOrHere p) = true ∨ t.nextLineStartOrHere p = t.size) := by
  unfold nextLineStartOrHere
  split
  next h => exact ⟨Nat.le_refl _, hp, .inl h⟩
  next =>
    rcases Nat.lt_or_eq_of_le (le_size_of_isBoundary hp) with hlt | rfl
    · obtain ⟨hlater, hb, hend⟩ := isLineStart_nextLineStart hp hlt
      exact ⟨Nat.le_of_lt hlater, hb, hend⟩
    · rw [nextLineStart_size]
      exact ⟨Nat.le_refl _, hp, .inr rfl⟩

/-! ## The end of a line -/

theorem lineEnd_append (s r : Text) : lineEnd (s ++ r) (size s) = size s + lineEnd r 0 := by
  induction s with
  | nil => simp
  | cons c cs ih =>
      have := c.utf8Size_pos
      rw [List.cons_append, lineEnd, size_cons, if_neg (by omega), Nat.add_sub_cancel_left, ih,
        Nat.add_assoc]

/-- The first step of `lineEnd`: it stops at a cut, not behind `nextLineStart`. -/
theorem exists_lineEnd (r : Text) : ∃ body rest,
    r = body ++ rest ∧ size body = lineEnd r 0 ∧ lineEnd r 0 ≤ nextLineStart r 0 := by
  induction r with
  | nil => exact ⟨[], [], rfl, rfl, Nat.le_refl _⟩
  | cons c cs ih =>
      unfold lineEnd nextLineStart
      by_cases hc : c = '\n'
      · rw [if_pos ⟨rfl, hc⟩, if_pos ⟨rfl, hc⟩]
        exact ⟨[], c :: cs, rfl, rfl, Nat.zero_le _⟩
      rw [if_neg (by simp [hc]), if_neg (by simp [hc]), Nat.zero_sub]
      obtain ⟨body, rest, rfl, hsize, hle⟩ := ih
      exact ⟨c :: body, rest, rfl, by rw [size_cons, hsize], Nat.add_le_add_left hle _⟩

/-- `lineEnd` of a cut is a cut at or after it, and not behind `nextLineStart`. -/
theorem isBoundary_lineEnd {t : Text} {p : Nat} (hp : t.isBoundary p = true) :
    p ≤ t.lineEnd p ∧ t.isBoundary (t.lineEnd p) = true ∧ t.lineEnd p ≤ t.nextLineStart p := by
  obtain ⟨s, r, rfl, rfl⟩ := isBoundary_iff.mp hp
  obtain ⟨body, rest, hsplit, hsize, hle⟩ := exists_lineEnd r
  rw [lineEnd_append, nextLineStart_append]
  refine ⟨Nat.le_add_right _ _, ?_, Nat.add_le_add_left hle _⟩
  rw [← hsize, ← size_append, hsplit, ← List.append_assoc]
  exact isBoundary_size_append _ _

/-! ## Lines -/

/-- `lines` loses nothing. -/
@[simp] theorem flatten_lines (t : Text) : (lines t).flatten = t := by
  induction t with
  | nil => rfl
  | cons c cs ih =>
      unfold lines
      split
      next hc => rw [List.flatten_cons, ih, hc]; rfl
      next =>
        cases hlines : lines cs with
        | nil =>
            rw [hlines] at ih
            rw [← ih]
            rfl
        | cons line rest =>
            rw [hlines] at ih
            rw [← ih]
            rfl

/-! ## The start of a line -/

/-- A text cut behind its last newline, which is where `startOfLine` goes from its end. -/
theorem exists_lastLine (s : Text) : ∃ before line, s = before ++ line ∧
    (before = [] ∨ ∃ b, before = b ++ ['\n']) ∧ '\n' ∉ line := by
  induction s with
  | nil => exact ⟨[], [], rfl, .inl rfl, by simp⟩
  | cons c cs ih =>
      obtain ⟨before, line, rfl, hbefore, hline⟩ := ih
      rcases hbefore with rfl | ⟨b, rfl⟩
      · by_cases hc : c = '\n'
        · subst hc
          exact ⟨['\n'], line, rfl, .inr ⟨[], rfl⟩, hline⟩
        · exact ⟨[], c :: line, rfl, .inl rfl, by simp [hline, Ne.symm hc]⟩
      · exact ⟨c :: b ++ ['\n'], line, by simp, .inr ⟨c :: b, rfl⟩, hline⟩

theorem startOfLine_line {line : Text} (hline : '\n' ∉ line) (r : Text) :
    startOfLine (line ++ r) (size line) = 0 := by
  induction line with
  | nil =>
      cases r with
      | nil => rfl
      | cons c cs =>
          have := c.utf8Size_pos
          rw [List.nil_append, startOfLine, size_nil, if_neg (by omega)]
  | cons c cs ih =>
      obtain ⟨hc, hcs⟩ : '\n' ≠ c ∧ '\n' ∉ cs := by simpa using hline
      rw [List.cons_append, startOfLine, size_cons, if_pos (Nat.le_add_right _ _),
        Nat.add_sub_cancel_left, ih hcs, if_pos rfl, if_neg (Ne.symm hc)]

/-- `startOfLine` from anywhere on a line without a newline goes to where the line starts. -/
theorem startOfLine_append {before line : Text} (hbefore : before = [] ∨ ∃ b, before = b ++ ['\n'])
    (hline : '\n' ∉ line) (r : Text) :
    startOfLine (before ++ (line ++ r)) (size (before ++ line)) = size before := by
  induction before with
  | nil => exact startOfLine_line hline r
  | cons c cs ih =>
      have hpos := c.utf8Size_pos
      obtain ⟨b, hb⟩ : ∃ b, c :: cs = b ++ ['\n'] := by simpa using hbefore
      rw [List.cons_append, List.cons_append, startOfLine, size_cons,
        if_pos (Nat.le_add_right _ _), Nat.add_sub_cancel_left]
      cases b with
      | nil =>
          obtain ⟨rfl, rfl⟩ := List.cons.inj hb
          rw [List.nil_append, List.nil_append, startOfLine_line hline, if_pos rfl, if_pos rfl]
          rfl
      | cons d b =>
          have hcs : cs = b ++ ['\n'] := (List.cons.inj hb).2
          subst hcs
          have hsize : size (b ++ ['\n']) ≠ 0 := by rw [Ne, size_eq_zero_iff]; simp
          rw [ih (.inr ⟨b, rfl⟩), size_cons]
          exact if_neg hsize

theorem fromFloor_append (s r : Text) : fromFloor (s ++ r) (size s) = r := by
  induction s with
  | nil =>
      cases r with
      | nil => rfl
      | cons c cs =>
          have := c.utf8Size_pos
          rw [List.nil_append, fromFloor, size_nil, if_neg (by omega)]
  | cons c cs ih =>
      rw [List.cons_append, fromFloor, size_cons, if_pos (Nat.le_add_right _ _),
        Nat.add_sub_cancel_left, ih]

/-! ## Counting line starts -/

/-- The positions strictly between two others at which a line begins. -/
def lineStartsBetween (t : Text) (lo hi : Nat) : List Nat :=
  (List.range hi).filter fun p => lo < p && t.isLineStart p

theorem mem_lineStartsBetween {t : Text} {lo hi p : Nat} :
    p ∈ t.lineStartsBetween lo hi ↔ lo < p ∧ p < hi ∧ t.isLineStart p = true := by
  simp only [lineStartsBetween, List.mem_filter, List.mem_range, Bool.and_eq_true,
    decide_eq_true_eq]
  constructor
  · rintro ⟨hhi, hlo, hp⟩
    exact ⟨hlo, hhi, hp⟩
  · rintro ⟨hlo, hhi, hp⟩
    exact ⟨hhi, hlo, hp⟩

/-- `lineStartsBetween` gets shorter from one line start to the next: the measure that the locators' scans
    go down on. -/
theorem length_lineStartsBetween_lt {t : Text} {lo hi p : Nat} (hlo : lo < p) (hhi : p < hi)
    (hp : t.isLineStart p = true) :
    (t.lineStartsBetween p hi).length < (t.lineStartsBetween lo hi).length := by
  -- `p` itself is one of the positions that are no longer counted
  have hnodup : (p :: t.lineStartsBetween p hi).Nodup := by
    refine List.nodup_cons.mpr ⟨?_, List.nodup_range.filter _⟩
    intro hmem
    exact Nat.lt_irrefl p (mem_lineStartsBetween.mp hmem).1
  have hsub : p :: t.lineStartsBetween p hi ⊆ t.lineStartsBetween lo hi := by
    intro q hq
    rcases List.mem_cons.mp hq with rfl | hq
    · exact mem_lineStartsBetween.mpr ⟨hlo, hhi, hp⟩
    · obtain ⟨hpq, hqhi, hq⟩ := mem_lineStartsBetween.mp hq
      exact mem_lineStartsBetween.mpr ⟨Nat.lt_trans hlo hpq, hqhi, hq⟩
  exact hnodup.length_le_of_subset hsub

end Graft.Text
