import Graft.Proofs.Text.LineStart

/-!
# `Graft.Proofs.Text.LineAt` — lines by where they start

A line is told by where it starts, what it holds, and where the next one starts (`Text.LineAt`). At a
position where a line begins there is exactly one, unless the position is the end of the text
(`exists_lineAt`, `LineAt.unique`), and no other line starts before it ends (`LineAt.le_of_lt`).

The functions that go from line to line agree with this. The next line start is where the line ends
(`LineAt.nextLineStart_eq`), and the list of the lines from a position on begins with the line
there (`LineAt.lines_eq`).
-/

namespace Graft.Text

/-! ## Up to the first newline -/

/-- The case analysis behind `LineAt`: a text has no newline, or it is cut at its first one. -/
theorem plain_or_exists_newline (s : Text) :
    '\n' ∉ s ∨ ∃ body more, s = body ++ '\n' :: more ∧ '\n' ∉ body := by
  by_cases h : '\n' ∈ s
  · exact .inr (List.eq_append_cons_of_mem h)
  · exact .inl h

theorem nextLineStart_plain {body : Text} (h : '\n' ∉ body) : nextLineStart body 0 = body.size := by
  induction body with
  | nil => rfl
  | cons c cs ih =>
      obtain ⟨hc, hcs⟩ : '\n' ≠ c ∧ '\n' ∉ cs := by simpa using h
      simp [nextLineStart, Ne.symm hc, ih hcs]

theorem nextLineStart_newline {body : Text} (h : '\n' ∉ body) (more : Text) :
    nextLineStart (body ++ '\n' :: more) 0 = body.size + 1 := by
  induction body with
  | nil => rfl
  | cons c cs ih =>
      obtain ⟨hc, hcs⟩ : '\n' ≠ c ∧ '\n' ∉ cs := by simpa using h
      simp [nextLineStart, Ne.symm hc, ih hcs, Nat.add_assoc]

theorem lines_plain {body : Text} (h : '\n' ∉ body) (hne : body ≠ []) : lines body = [body] := by
  induction body with
  | nil => exact absurd rfl hne
  | cons c cs ih =>
      obtain ⟨hc, hcs⟩ : '\n' ≠ c ∧ '\n' ∉ cs := by simpa using h
      by_cases hnil : cs = []
      · simp [lines, Ne.symm hc, hnil]
      · simp [lines, Ne.symm hc, ih hcs hnil]

theorem lines_newline {body : Text} (h : '\n' ∉ body) (more : Text) :
    lines (body ++ '\n' :: more) = (body ++ ['\n']) :: lines more := by
  induction body with
  | nil => simp [lines]
  | cons c cs ih =>
      obtain ⟨hc, hcs⟩ : '\n' ≠ c ∧ '\n' ∉ cs := by simpa using h
      simp [lines, Ne.symm hc, ih hcs]

/-! ## Lines -/

/-- A line that starts at a position, with what it holds and where it ends. It ends behind its newline
    or, if it has none, at the end of the text. -/
structure LineAt (t : Text) (p : Nat) (content : Text) (next : Nat) : Prop where
  starts : t.isLineStart p = true
  plain : '\n' ∉ content
  lt : p < next
  text : t.slice? p next = some (content ++ ['\n']) ∨
    next = t.size ∧ t.slice? p next = some content

variable {t : Text} {p q next : Nat} {content rest : Text}

theorem isLineStart_of_newline {body more : Text} (h : t.from? p = some (body ++ '\n' :: more)) :
    t.isLineStart (p + (body.size + 1)) = true := by
  obtain ⟨before, rfl, rfl⟩ := exists_of_from? h
  have hfollows : followsNewline (before ++ (body ++ '\n' :: more)) (before.size + (body.size + 1))
      = true := by
    apply followsNewline_iff.mpr
    exact ⟨before ++ body, more, by simp, by simp [Nat.add_assoc]⟩
  rw [isLineStart, hfollows, Bool.or_true]

theorem lineAt_of_newline {body more : Text} (hp : t.isLineStart p = true)
    (h : t.from? p = some (body ++ '\n' :: more)) (hbody : '\n' ∉ body) :
    t.LineAt p body (p + (body.size + 1)) := by
  obtain ⟨before, rfl, rfl⟩ := exists_of_from? h
  refine ⟨hp, hbody, by omega, .inl ?_⟩
  apply slice?_eq_some_iff.mpr
  exact ⟨before, more, by simp, rfl, by simp; rfl⟩

theorem lineAt_of_plain {body : Text} (hp : t.isLineStart p = true) (h : t.from? p = some body)
    (hbody : '\n' ∉ body) (hne : body ≠ []) : t.LineAt p body (p + body.size) := by
  have hpos : body.size ≠ 0 := by
    rw [Ne, size_eq_zero_iff]
    exact hne
  obtain ⟨before, rfl, rfl⟩ := exists_of_from? h
  refine ⟨hp, hbody, by omega, .inr ⟨by simp, ?_⟩⟩
  apply slice?_eq_some_iff.mpr
  exact ⟨before, [], by simp, rfl, rfl⟩

/-- Before the end of the text, every line start has its `LineAt`. -/
theorem exists_lineAt (hp : t.isLineStart p = true) (h : t.from? p = some rest) (hne : rest ≠ []) :
    ∃ content next, t.LineAt p content next := by
  rcases plain_or_exists_newline rest with hplain | ⟨body, more, rfl, hbody⟩
  · exact ⟨rest, _, lineAt_of_plain hp h hplain hne⟩
  · exact ⟨body, _, lineAt_of_newline hp h hbody⟩

/-- What `LineAt` says of the text from there on: the line ends with the first newline, or it is all that
    is left. -/
theorem LineAt.cases (h : t.LineAt p content next) :
    (∃ more, t.from? p = some (content ++ '\n' :: more) ∧ next = p + (content.size + 1) ∧
        t.from? next = some more) ∨
      t.from? p = some content ∧ next = p + content.size ∧ t.from? next = some [] ∧ content ≠ [] := by
  have hlt := h.lt
  rcases h.text with hslice | ⟨hend, hslice⟩
  · obtain ⟨before, more, rfl, rfl, rfl⟩ := slice?_eq_some_iff.mp hslice
    left
    refine ⟨more, ?_, by simp; rfl, ?_⟩
    · simp
    · have := from?_size_append (before ++ (content ++ ['\n'])) more
      simpa using this
  · obtain ⟨before, after, rfl, rfl, rfl⟩ := slice?_eq_some_iff.mp hslice
    -- nothing is left behind a line that ends with the text
    have hafter : after = [] := by
      apply size_eq_zero_iff.mp
      simp only [size_append] at hend
      omega
    subst hafter
    right
    refine ⟨?_, rfl, ?_, ?_⟩
    · simp
    · have := from?_size_append (before ++ content) []
      simpa using this
    · rintro rfl
      simp at hlt

/-- Behind a `LineAt` the text ends, or `isLineStart` holds again. With `exists_lineAt` this is the step
    from one line to the next. -/
theorem LineAt.next_isLineStart (h : t.LineAt p content next) :
    t.isLineStart next = true ∨ t.from? next = some [] := by
  rcases h.cases with ⟨more, hfrom, rfl, -⟩ | ⟨-, -, hnext, -⟩
  · exact .inl (isLineStart_of_newline hfrom)
  · exact .inr hnext

theorem LineAt.next_le_size (h : t.LineAt p content next) : next ≤ t.size := by
  rcases h.cases with ⟨more, -, -, hnext⟩ | ⟨-, -, hnext, -⟩
  · exact le_size_of_isBoundary (isBoundary_of_from? hnext)
  · exact le_size_of_isBoundary (isBoundary_of_from? hnext)

/-- `nextLineStart` is where the `LineAt` a position ends. -/
theorem LineAt.nextLineStart_eq (h : t.LineAt p content next) : t.nextLineStart p = next := by
  rcases h.cases with ⟨more, hfrom, rfl, -⟩ | ⟨hfrom, rfl, -, -⟩
  · obtain ⟨before, rfl, rfl⟩ := exists_of_from? hfrom
    rw [nextLineStart_append, nextLineStart_newline h.plain]
  · obtain ⟨before, rfl, rfl⟩ := exists_of_from? hfrom
    rw [nextLineStart_append, nextLineStart_plain h.plain]

/-- `lines` of the rest of a text begins with its `LineAt`. Fewer characters are left behind it, which is
    what inductions over the lines go down on. -/
theorem LineAt.lines_eq (h : t.LineAt p content next) (hfrom : t.from? p = some rest) :
    ∃ line more, rest.lines = line :: lines more ∧ t.from? next = some more ∧
      p + line.size = next ∧ (line = content ++ ['\n'] ∨ line = content) ∧
      more.length < rest.length := by
  rcases h.cases with ⟨more, hline, rfl, hnext⟩ | ⟨hline, rfl, hnext, hne⟩
  · obtain rfl := Option.some.inj (hfrom.symm.trans hline)
    refine ⟨content ++ ['\n'], more, lines_newline h.plain more, hnext, ?_, .inl rfl, ?_⟩
    · simp
      rfl
    · simp
      omega
  · obtain rfl := Option.some.inj (hfrom.symm.trans hline)
    refine ⟨rest, [], lines_plain h.plain hne, hnext, rfl, .inr rfl, ?_⟩
    exact List.length_pos_iff.mpr hne

/-! ## Nothing in between -/

theorem nextLineStartOrHere_le_of_isLineStart (hq : t.isLineStart q = true) (hle : p ≤ q) :
    t.nextLineStartOrHere p ≤ q := by
  unfold nextLineStartOrHere
  by_cases hhere : t.isLineStart p = true
  · rw [if_pos hhere]
    exact hle
  · rw [if_neg hhere]
    apply nextLineStart_le_of_isLineStart hq
    apply Nat.lt_of_le_of_ne hle
    rintro rfl
    exact hhere hq

/-- Two of `LineAt` do not overlap: none starts before another one ends. -/
theorem LineAt.le_of_lt {content' : Text} {next' : Nat} (h : t.LineAt p content next)
    (h' : t.LineAt q content' next') (hlt : p < q) : next ≤ q := by
  have hle := nextLineStart_le_of_isLineStart h'.starts hlt
  rwa [h.nextLineStart_eq] at hle

/-- `LineAt` is determined by its start. -/
theorem LineAt.unique {content' : Text} {next' : Nat} (h : t.LineAt p content next)
    (h' : t.LineAt p content' next') : content = content' ∧ next = next' := by
  have hnext : next = next' := h.nextLineStart_eq.symm.trans h'.nextLineStart_eq
  subst hnext
  refine ⟨?_, rfl⟩
  rcases h.cases with ⟨more, hfrom, hstop, -⟩ | ⟨hfrom, hstop, -, -⟩
  · rcases h'.cases with ⟨more', hfrom', hstop', -⟩ | ⟨hfrom', -, -, -⟩
    · have heq := Option.some.inj (hfrom.symm.trans hfrom')
      exact (append_inj_of_size heq (by omega)).1
    · -- a text without a newline does not begin with a line that has one
      have heq := Option.some.inj (hfrom.symm.trans hfrom')
      exact absurd (heq ▸ by simp : '\n' ∈ content') h'.plain
  · rcases h'.cases with ⟨more', hfrom', -, -⟩ | ⟨hfrom', -, -, -⟩
    · have heq := Option.some.inj (hfrom.symm.trans hfrom')
      exact absurd (heq ▸ by simp : '\n' ∈ content) h.plain
    · exact Option.some.inj (hfrom.symm.trans hfrom')

end Graft.Text
