import Graft.Proofs.Locator.Interior
import Graft.Proofs.Locator.Start
import Graft.Proofs.Text.LineAt

/-!
# `Graft.Proofs.Locator.ClosingLine` — the line that closes a block

A block is closed by the first line behind its header that holds the indentation of the header and the
marker (`Text.ClosingLine`). Lines in front of it have to be blank or indented like the header, and it
has to end within the limit.

The search goes from line to line. What it finds among the lines from a position on follows from the
line there and from what it finds behind that line (`Text.ClosingLine.cases`, `.behind`), which gives
the search as a whole (`closingLine_eq_some_iff`). A block is located just where its header is admitted
and such a line exists, and ends with that line (`locateWithin_closingLine`).
-/

namespace Graft

namespace Text

/-- A line that may close a block: it holds an indentation and a marker, ends within a limit, and the
    lines from a position up to it are blank or indented. -/
structure ClosingLine (t indentation marker : Text) (start limit p next : Nat) : Prop where
  start_le : start ≤ p
  lt_limit : p < limit
  line : t.LineAt p (indentation ++ marker) next
  le_limit : next ≤ limit
  between : ∀ q content stop, start ≤ q → q < p → t.LineAt q content stop →
    content.isBlank = true ∨ indentation <+: content

/-- The first of the lines that may close a block. -/
def FirstClosingLine (t indentation marker : Text) (start limit p next : Nat) : Prop :=
  t.ClosingLine indentation marker start limit p next ∧
    ∀ q stop, t.ClosingLine indentation marker start limit q stop → p ≤ q

variable {t indentation marker content : Text} {start limit p next stop : Nat}

/-- A `ClosingLine` at or behind `start` is the first line there is, or a `ClosingLine` behind that
    one. -/
theorem ClosingLine.cases (hline : t.LineAt start content next)
    (h : t.ClosingLine indentation marker start limit p stop) :
    (p = start ∧ content = indentation ++ marker ∧ next = stop) ∨
      (content.isBlank = true ∨ indentation <+: content) ∧
        t.ClosingLine indentation marker next limit p stop := by
  rcases Nat.lt_or_eq_of_le h.start_le with hlt | heq
  · right
    have hle := hline.le_of_lt h.line hlt
    refine ⟨h.between start content next (Nat.le_refl _) hlt hline, ?_⟩
    refine { h with start_le := hle, between := ?_ }
    intro q content' stop' hq
    exact h.between q content' stop' (Nat.le_trans (Nat.le_of_lt hline.lt) hq)
  · left
    subst heq
    obtain ⟨hcontent, hnext⟩ := hline.unique h.line
    exact ⟨rfl, hcontent, hnext⟩

/-- The converse of the second case of `ClosingLine.cases`: lines that are blank or indented may be passed
    over. -/
theorem ClosingLine.behind (hline : t.LineAt start content next)
    (hcontent : content.isBlank = true ∨ indentation <+: content)
    (h : t.ClosingLine indentation marker next limit p stop) :
    t.ClosingLine indentation marker start limit p stop := by
  refine { h with start_le := ?_, between := ?_ }
  · exact Nat.le_trans (Nat.le_of_lt hline.lt) h.start_le
  · intro q content' stop' hq hqp hline'
    rcases Nat.lt_or_eq_of_le hq with hlt | heq
    · exact h.between q content' stop' (hline.le_of_lt hline' hlt) hqp hline'
    · subst heq
      rw [← (hline.unique hline').1]
      exact hcontent

/-- No `ClosingLine` where the first line there is ends behind the limit. -/
theorem not_closingLine_of_limit_lt (hline : t.LineAt start content next) (hlimit : limit < next) :
    ¬ t.ClosingLine indentation marker start limit p stop := by
  intro h
  rcases h.cases hline with ⟨-, -, rfl⟩ | ⟨-, h⟩
  · exact absurd h.le_limit (Nat.not_le.mpr hlimit)
  · have := h.start_le
    have := h.lt_limit
    omega

/-- No `ClosingLine` behind a line that is neither blank nor indented. -/
theorem not_closingLine_of_outdented (hline : t.LineAt start content next)
    (hcontent : ¬ (content.isBlank = true ∨ indentation <+: content)) :
    ¬ t.ClosingLine indentation marker start limit p stop := by
  intro h
  rcases h.cases hline with ⟨-, rfl, -⟩ | ⟨hcontent', -⟩
  · exact hcontent (.inr (List.prefix_append _ _))
  · exact hcontent hcontent'

/-- A line of just the indentation and the marker is the `FirstClosingLine` itself, if it ends in time. -/
theorem firstClosingLine_here_iff (hline : t.LineAt start (indentation ++ marker) next)
    (hle : next ≤ limit) :
    t.FirstClosingLine indentation marker start limit p stop ↔ p = start ∧ stop = next := by
  have hlt := hline.lt
  have hhere : t.ClosingLine indentation marker start limit start next := by
    refine ⟨Nat.le_refl _, by omega, hline, hle, ?_⟩
    intro q content stop hq hqs
    exact absurd hqs (Nat.not_lt.mpr hq)
  constructor
  · rintro ⟨h, hfirst⟩
    -- both lines are the first one, so they start at the same place
    obtain rfl : p = start := Nat.le_antisymm (hfirst start next hhere) h.start_le
    exact ⟨rfl, (h.line.unique hline).2⟩
  · rintro ⟨rfl, rfl⟩
    exact ⟨hhere, fun q stop hq => hq.start_le⟩

/-- Any other line that is blank or indented leaves the `FirstClosingLine` as it is. Together with
    `firstClosingLine_here_iff` this is what the search does in one step. -/
theorem firstClosingLine_behind_iff (hline : t.LineAt start content next)
    (hcontent : content.isBlank = true ∨ indentation <+: content)
    (hne : content ≠ indentation ++ marker) :
    t.FirstClosingLine indentation marker start limit p stop ↔
      t.FirstClosingLine indentation marker next limit p stop := by
  have hsame (q stop' : Nat) : t.ClosingLine indentation marker start limit q stop' ↔
      t.ClosingLine indentation marker next limit q stop' := by
    constructor
    · intro h
      rcases h.cases hline with ⟨-, heq, -⟩ | ⟨-, h⟩
      · exact absurd heq hne
      · exact h
    · intro h
      exact h.behind hline hcontent
  simp only [FirstClosingLine, hsame]

/-- Where there is a `ClosingLine`, there is a `FirstClosingLine`: going back from one to an earlier one
    comes to an end. -/
theorem ClosingLine.exists_first (h : t.ClosingLine indentation marker start limit p stop) :
    ∃ first next, t.FirstClosingLine indentation marker start limit first next := by
  -- by induction on where the line starts: if it is not the first one, an earlier line closes as well
  induction p using Nat.strongRecOn generalizing stop with
  | ind p ih =>
    by_cases hearlier : ∃ q stop', q < p ∧ t.ClosingLine indentation marker start limit q stop'
    · obtain ⟨q, stop', hlt, hq⟩ := hearlier
      exact ih q hlt hq
    · refine ⟨p, stop, h, ?_⟩
      intro q stop' hq
      apply Nat.le_of_not_lt
      intro hlt
      exact hearlier ⟨q, stop', hlt, hq⟩

/-- A `ClosingLine` starts at a line start, so it makes no difference to look for it from the first one on
    only. -/
theorem closingLine_orHere_iff (hstart : t.isBoundary start = true) :
    t.ClosingLine indentation marker (t.nextLineStartOrHere start) limit p stop ↔
      t.ClosingLine indentation marker start limit p stop := by
  obtain ⟨hle, -, -⟩ := isLineStart_nextLineStartOrHere hstart
  constructor
  · intro h
    refine { h with start_le := Nat.le_trans hle h.start_le, between := ?_ }
    intro q content next hq hqp hline
    exact h.between q content next (nextLineStartOrHere_le_of_isLineStart hline.starts hq) hqp hline
  · intro h
    refine { h with start_le := ?_, between := ?_ }
    · exact nextLineStartOrHere_le_of_isLineStart h.line.starts h.start_le
    · intro q content next hq
      exact h.between q content next (Nat.le_trans hle hq)

end Text

namespace Locator

variable {t indentation marker rest : Text} {start limit found stop pos headerEnd : Nat}

/-! ## The search -/

theorem withoutNewline_eq {line content : Text} (h : line = content ++ ['\n'] ∨ line = content)
    (hplain : '\n' ∉ content) : withoutNewline line = content := by
  rcases h with rfl | rfl
  · simp [withoutNewline]
  · have hlast : line.getLast? ≠ some '\n' := by
      intro hlast
      exact hplain (List.mem_of_getLast? hlast)
    simp [withoutNewline, hlast]

/-- One step of `closingLine`, as an equation. It is the only place where the search is unfolded. -/
theorem result_closingLine_cons {line content : Text} {next : Nat} {more : List Text}
    (hsize : start + line.size = next) (hcontent : withoutNewline line = content) :
    (closingLine indentation marker limit start (line :: more)).result =
      if limit < next then .ok none
      else if content = indentation ++ marker then .ok (some (start, next))
      else if content.isBlank = true ∨ indentation <+: content then
        (closingLine indentation marker limit next more).result
      else .ok none := by
  subst hsize hcontent
  rw [closingLine]
  by_cases hlimit : limit < start + line.size
  · simp [hlimit]
  by_cases hmarker : withoutNewline line = indentation ++ marker
  · simp [hlimit, hmarker]
  have houtdented : (!(withoutNewline line).isBlank && !indentation.isPrefixOf (withoutNewline line))
      = !decide ((withoutNewline line).isBlank = true ∨ indentation <+: withoutNewline line) := by
    simp only [← List.isPrefixOf_iff_prefix]
    cases (withoutNewline line).isBlank <;> cases indentation.isPrefixOf (withoutNewline line) <;> rfl
  rw [if_neg hlimit, if_neg hlimit, if_neg hmarker, if_neg hmarker, houtdented]
  by_cases hcontent : (withoutNewline line).isBlank = true ∨ indentation <+: withoutNewline line
  · simp [hcontent]
  · simp [hcontent]
    rfl

/-- `closingLine` finds exactly the `FirstClosingLine`. By induction on the lines that are left, each step
    of `result_closingLine_cons` being told by what the line contains. -/
theorem closingLine_eq_some_iff (hstart : t.isLineStart start = true ∨ rest = [])
    (hrest : t.from? start = some rest) :
    (closingLine indentation marker limit start rest.lines).result = .ok (some (found, stop)) ↔
      t.FirstClosingLine indentation marker start limit found stop := by
  -- by induction on how much of the text is left, one line at a time
  induction hlength : rest.length using Nat.strongRecOn generalizing start rest with
  | ind length ih =>
    subst hlength
    by_cases hnil : rest = []
    · -- at the end of the text there are no more lines
      subst hnil
      have hsize : t.size = start := by simpa using Text.size_of_from? hrest
      constructor
      · intro h
        cases h
      · rintro ⟨h, -⟩
        have := h.start_le
        have := h.line.lt
        have := h.line.next_le_size
        omega
    have hstart : t.isLineStart start = true := by
      rcases hstart with hstart | hnil'
      · exact hstart
      · exact absurd hnil' hnil
    obtain ⟨content, next, hline⟩ := Text.exists_lineAt hstart hrest hnil
    obtain ⟨line, more, hlines, hmore, hsize, hform, hshorter⟩ := hline.lines_eq hrest
    rw [hlines, result_closingLine_cons hsize (withoutNewline_eq hform hline.plain)]
    by_cases hlimit : limit < next
    · rw [if_pos hlimit]
      constructor
      · intro h
        cases h
      · rintro ⟨h, -⟩
        exact absurd h (Text.not_closingLine_of_limit_lt hline hlimit)
    rw [if_neg hlimit]
    by_cases hmarker : content = indentation ++ marker
    · subst hmarker
      rw [if_pos rfl, Text.firstClosingLine_here_iff hline (Nat.le_of_not_lt hlimit)]
      constructor
      · intro h
        obtain ⟨rfl, rfl⟩ := Prod.mk.inj (Option.some.inj (Except.ok.inj h))
        exact ⟨rfl, rfl⟩
      · rintro ⟨rfl, rfl⟩
        rfl
    rw [if_neg hmarker]
    by_cases hcontent : content.isBlank = true ∨ indentation <+: content
    · rw [if_pos hcontent, Text.firstClosingLine_behind_iff hline hcontent hmarker]
      apply ih more.length hshorter _ hmore rfl
      rcases hline.next_isLineStart with hnext | hend
      · exact .inl hnext
      · exact .inr (Option.some.inj (hmore.symm.trans hend))
    · rw [if_neg hcontent]
      constructor
      · intro h
        cases h
      · rintro ⟨h, -⟩
        exact absurd h (Text.not_closingLine_of_outdented hline hcontent)

/-- `closedByLine` is `closingLine_eq_some_iff` from the first line start behind the header on. The
    interior ends where the line that closes the block starts. -/
theorem closedByLine_eq_some_iff {interior : Span} (hheader : t.isBoundary headerEnd = true) :
    (closedByLine t marker indentation headerEnd limit).result = .ok (some (stop, interior)) ↔
      t.FirstClosingLine indentation marker headerEnd limit interior.stop stop ∧
        interior.start = if t.nextLineStartOrHere headerEnd = headerEnd then headerEnd
          else t.lineEnd headerEnd := by
  obtain ⟨-, hcut, hend⟩ := Text.isLineStart_nextLineStartOrHere hheader
  obtain ⟨rest, hrest⟩ := Option.isSome_iff_exists.mp hcut
  have hstart : t.isLineStart (t.nextLineStartOrHere headerEnd) = true ∨ rest = [] := by
    rcases hend with hline | hsize
    · exact .inl hline
    · right
      apply Text.size_eq_zero_iff.mp
      have := Text.size_of_from? hrest
      omega
  have hfirst (found stop : Nat) : (closingLine indentation marker limit
      (t.nextLineStartOrHere headerEnd) rest.lines).result = .ok (some (found, stop)) ↔
        t.FirstClosingLine indentation marker headerEnd limit found stop := by
    rw [closingLine_eq_some_iff hstart hrest]
    simp only [Text.FirstClosingLine, Text.closingLine_orHere_iff hheader]
  unfold closedByLine
  dsimp only
  rw [hrest, Option.getD_some, Traced.result_bind_eq_ok_iff]
  constructor
  · rintro ⟨closed, hclosed, h⟩
    rcases closed with _ | ⟨found, last⟩
    · cases h
    obtain ⟨rfl, rfl⟩ := Prod.mk.inj (Option.some.inj (Except.ok.inj h))
    exact ⟨(hfirst _ _).mp hclosed, rfl⟩
  · rintro ⟨h, hinside⟩
    obtain ⟨inside, found⟩ := interior
    dsimp only at h hinside
    subst hinside
    exact ⟨some (found, stop), (hfirst _ _).mpr h, rfl⟩

/-! ## Blocks -/

section

variable {header : Recognizer} {closing : Closing} {wanted : Option Text} {e : Element} {b : Block}

theorem admits_iff : admits wanted indentation = true ↔ ∀ w ∈ wanted, w = indentation := by
  cases wanted <;> simp [admits]

/-- `locateWithin` of a block, once its header is found: all that is left are the limit, the indentation
    that is asked for, and what `ending` answers. -/
theorem locateWithin_eq_some_iff (hlimit : limit ≤ t.size)
    (hheader : (header t pos).result = .ok (some e)) :
    ((Locator.block header closing wanted).locateWithin t pos limit).result = .ok (some b) ↔
      pos < limit ∧ e.span.stop ≤ limit ∧ admits wanted (lineIndentation t e.start) = true ∧
        ∃ stop interior, (ending closing t (lineIndentation t e.start) pos e.span.stop limit).result
            = .ok (some (stop, interior)) ∧
          b = ⟨e.start, stop, ⟨pos, stop⟩, lineIndentation t e.start, e, some interior⟩ := by
  unfold locateWithin blockWithin
  dsimp only
  rw [Nat.min_eq_left hlimit]
  by_cases hpos : pos < limit
  · rw [if_pos hpos, Traced.result_bind, hheader, Except.bind]
    dsimp only
    by_cases hend : limit < e.span.stop
    · rw [if_pos hend]
      constructor
      · intro h
        cases h
      · rintro ⟨-, hle, -⟩
        exact absurd hend (Nat.not_lt.mpr hle)
    rw [if_neg hend]
    by_cases hadmits : admits wanted (lineIndentation t e.start) = true
    · rw [hadmits, Bool.not_true, if_neg Bool.false_ne_true, Traced.result_bind_eq_ok_iff]
      constructor
      · rintro ⟨ended, hended, h⟩
        rcases ended with _ | ⟨stop, interior⟩
        · cases h
        obtain rfl := Option.some.inj (Except.ok.inj h)
        exact ⟨hpos, Nat.le_of_not_lt hend, rfl, stop, interior, hended, rfl⟩
      · rintro ⟨-, -, -, stop, interior, hended, rfl⟩
        exact ⟨_, hended, rfl⟩
    · have hrefused : admits wanted (lineIndentation t e.start) = false := by simpa using hadmits
      rw [hrefused, Bool.not_false, if_pos rfl]
      constructor
      · intro h
        cases h
      · rintro ⟨-, -, h, -⟩
        cases h
  · rw [if_neg hpos]
    constructor
    · intro h
      cases h
    · rintro ⟨hlt, -⟩
      exact absurd hlt hpos

/-- `locateWithin` then always comes to an answer, and `Ends`, which says what may end a block, tells it
    in full. Both kinds of `Closing` are settled by this lemma. -/
theorem exists_located {Ends : Nat → Span → Prop} (hlimit : limit ≤ t.size)
    (hheader : (header t pos).result = .ok (some e))
    (hends : ∀ stop interior, (ending closing t (lineIndentation t e.start) pos e.span.stop
      limit).result = .ok (some (stop, interior)) ↔ Ends stop interior) (wanted : Option Text) :
    ∃ found, ((Locator.block header closing wanted).locateWithin t pos limit).result = .ok found ∧
      (found.isSome = true ↔ pos < limit ∧ e.span.stop ≤ limit ∧
        (∀ w ∈ wanted, w = lineIndentation t e.start) ∧ ∃ stop interior, Ends stop interior) ∧
      ∀ b ∈ found, ∃ stop interior, Ends stop interior ∧
        b = ⟨e.start, stop, ⟨pos, stop⟩, lineIndentation t e.start, e, some interior⟩ := by
  have hfound (b : Block) : ((Locator.block header closing wanted).locateWithin t pos limit).result
      = .ok (some b) ↔ _ := locateWithin_eq_some_iff hlimit hheader
  cases hresult : ((Locator.block header closing wanted).locateWithin t pos limit).result with
  | error halt => cases hheader.symm.trans (error_of_locateWithin hresult)
  | ok found =>
      rw [hresult] at hfound
      refine ⟨found, rfl, ⟨?_, ?_⟩, ?_⟩
      · intro hsome
        obtain ⟨b, rfl⟩ := Option.isSome_iff_exists.mp hsome
        obtain ⟨hlt, hend, hadmits, stop, interior, hended, -⟩ := (hfound b).mp rfl
        exact ⟨hlt, hend, admits_iff.mp hadmits, stop, interior, (hends stop interior).mp hended⟩
      · rintro ⟨hlt, hend, hadmits, stop, interior, hended⟩
        have hb := (hfound _).mpr ⟨hlt, hend, admits_iff.mpr hadmits, stop, interior,
          (hends stop interior).mpr hended, rfl⟩
        rw [Except.ok.inj hb]
        rfl
      · rintro b rfl
        obtain ⟨-, -, -, stop, interior, hended, hb⟩ := (hfound b).mp rfl
        exact ⟨stop, interior, (hends stop interior).mp hended, hb⟩

end

/-- **Blocks closed by a line.** Where the header is found, `locateWithin` comes to an answer. It is a
    block just if the position lies before the limit, the header ends within it and has the indentation
    that is asked for, and there is a `ClosingLine` behind the header. The interior then ends where the
    `FirstClosingLine` starts, and the block with that line, which holds the indentation, the marker, and
    at most a newline. -/
theorem locateWithin_closingLine {resolve : Slot → Rule.Target} {slots : Nat} {r : Rule}
    {wanted : Option Text} {e : Element} (hpos : t.isBoundary pos = true)
    (hlimit : t.isBoundary limit = true)
    (hheader : (r.parse resolve slots t pos).result = .ok (some e)) (marker : Text) :
    t.Indents e.start (lineIndentation t e.start) ∧ ∃ found,
      ((Locator.block (r.parse resolve slots) (.line marker) wanted).locateWithin t pos limit).result
        = .ok found ∧
      (found.isSome = true ↔
        pos < limit ∧ e.span.stop ≤ limit ∧ (∀ w ∈ wanted, w = lineIndentation t e.start) ∧
          ∃ p next, t.ClosingLine (lineIndentation t e.start) marker e.span.stop limit p next) ∧
      ∀ b ∈ found, ∃ i, b.interior? = some i ∧
        t.FirstClosingLine (lineIndentation t e.start) marker e.span.stop limit i.stop b.stop ∧
        e.span.stop ≤ i.start ∧ i.start ≤ i.stop ∧ i.stop < b.stop ∧ b.stop = b.span.stop ∧
        b.span.stop ≤ limit ∧
        ∃ ending, (ending = [] ∨ ending = ['\n']) ∧
          t.slice? i.stop b.stop = some (lineIndentation t e.start ++ marker ++ ending) := by
  have hsize := Text.le_size_of_isBoundary hlimit
  have hplaced := (Recognizer.sound_of_boundary
    (Rule.sound_parse resolve slots r t pos _ hheader) hpos).2.placed
  have hcut := hplaced.span_stop_boundary
  have hends (stop : Nat) (interior : Span) : (ending (.line marker) t (lineIndentation t e.start) pos
      e.span.stop limit).result = .ok (some (stop, interior)) ↔ _ := closedByLine_eq_some_iff hcut
  obtain ⟨found, hresult, hsome, hblock⟩ := exists_located hsize hheader hends wanted
  refine ⟨indents_lineIndentation hplaced.start_boundary, found, hresult, ?_, ?_⟩
  · rw [hsome]
    constructor
    · rintro ⟨hlt, hend, hadmits, stop, interior, hfirst, -⟩
      exact ⟨hlt, hend, hadmits, _, _, hfirst.1⟩
    · rintro ⟨hlt, hend, hadmits, p, next, hclosing⟩
      obtain ⟨first, stop, hfirst⟩ := hclosing.exists_first
      exact ⟨hlt, hend, hadmits, stop, ⟨_, first⟩, hfirst, rfl⟩
  · intro b hb
    obtain ⟨stop, interior, ⟨hfirst, hinside⟩, rfl⟩ := hblock b hb
    obtain ⟨hle, hbefore, -⟩ := le_inside hcut hinside.symm
    have hclosing := hfirst.1
    have hline := Text.nextLineStartOrHere_le_of_isLineStart hclosing.line.starts hclosing.start_le
    refine ⟨interior, rfl, hfirst, hle, Nat.le_trans hbefore hline, hclosing.line.lt, rfl,
      hclosing.le_limit, ?_⟩
    rcases hclosing.line.text with hslice | ⟨-, hslice⟩
    · exact ⟨['\n'], .inr rfl, hslice⟩
    · exact ⟨[], .inl rfl, by rw [List.append_nil]; exact hslice⟩

/-- `locateWithin_closingLine` for a header behind a space. The line that closes the block comes after an
    empty line and one that is indented further, and has no newline. -/
theorem locateWithin_closingLine_indented : ∃ b i,
    ((Locator.block (Rule.parse (fun _ => .undefined) 0 (.symbol ['x'])) (.line [')'])
        (some [' '])).locateWithin
      [' ', 'x', '\n', '\n', ' ', ' ', 'y', '\n', ' ', ')'] 0 10).result = .ok (some b) ∧
      b.interior? = some i ∧ i.stop = 8 ∧ b.stop = 10 ∧
      Text.FirstClosingLine [' ', 'x', '\n', '\n', ' ', ' ', 'y', '\n', ' ', ')'] [' '] [')'] 2 10
        i.stop b.stop := by
  have hheader : (Rule.parse (fun _ => .undefined) 0 (.symbol ['x'])
      [' ', 'x', '\n', '\n', ' ', ' ', 'y', '\n', ' ', ')'] 0).result = .ok (some _) := rfl
  have hlimit : Text.isBoundary [' ', 'x', '\n', '\n', ' ', ' ', 'y', '\n', ' ', ')'] 10 = true := rfl
  obtain ⟨-, found, hfound, -, hblock⟩ :=
    @locateWithin_closingLine _ _ _ _ _ _ (some [' ']) _ rfl hlimit hheader [')']
  obtain rfl := Except.ok.inj hfound
  obtain ⟨i, hi, hfirst, -⟩ := hblock _ rfl
  obtain rfl := Option.some.inj hi
  exact ⟨_, _, rfl, rfl, rfl, rfl, hfirst⟩

end Locator

end Graft
