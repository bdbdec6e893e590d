import Graft.Proofs.Element.Placed
import Graft.Proofs.Recognizer.QuotedBody
import Graft.Proofs.Regex.Captures

/-!
# `Graft.Proofs.Recognizer.Sound` — what recognisers may answer

Every recogniser keeps to one rule about positions (`Recognizer.Sound`). Past the end of a text it
matches nothing. Where the text can be cut it answers sound elements, whose span starts no earlier
than the position. Inside a character it may still answer, but then with an element that has no place
in the text.

This module shows the rule for the recognisers that are not made of others. The ones given by
expressions rest on where matches and groups lie, the others on the characters that they pass.
-/

namespace Graft

/-! ## Results of sequences -/

namespace Traced

variable {α β : Type} {x : Traced α} {f : α → Traced β}

/-- The two equations by which proofs take a computation apart: when a sequence of two steps succeeds, and
    when it halts. -/
theorem result_bind_eq_ok_iff {b : β} :
    (x >>= f).result = .ok b ↔ ∃ a, x.result = .ok a ∧ (f a).result = .ok b := by
  rw [result_bind]
  cases x.result <;> simp [Except.bind]

theorem result_bind_eq_error_iff {h : Halt} :
    (x >>= f).result = .error h ↔
      x.result = .error h ∨ ∃ a, x.result = .ok a ∧ (f a).result = .error h := by
  rw [result_bind]
  cases x.result <;> simp [Except.bind]

end Traced

/-! ## The rule -/

/-- Whether an element is an identifier, as the name of a type has to be. -/
def Element.isName : Element → Bool
  | word _ | dottedWord _ => true
  | _ => false

/-- What is answered inside a character: an element without a place in the text, that is no name and,
    if it is a join, does not start with one. -/
structure Element.Misplaced (e : Element) : Prop where
  extent_eq : e.extent = .invalid
  not_name : e.isName = false
  first_not_name : ∀ x items, e = .join x items →
    ∃ first rest, items = first :: rest ∧ first.isName = false

namespace Recognizer

/-- What may be answered at a position of a text. -/
inductive Answers (t : Text) (pos : Nat) : Option Element → Prop
  | missed : Answers t pos none
  | found {e : Element} (hpos : t.isBoundary pos = true) (hle : pos ≤ e.span.start)
      (hsound : e.Sound t) : Answers t pos (some e)
  | misplaced {e : Element} (hpos : pos ≤ t.size) (hinside : t.isBoundary pos = false)
      (hmis : e.Misplaced) : Answers t pos (some e)

/-- A recogniser that only answers what may be answered. -/
def Sound (p : Recognizer) : Prop :=
  ∀ t pos ans, (p t pos).result = .ok ans → Answers t pos ans

variable {t rest : Text} {pos : Nat}

theorem answers_none {ans : Option Element}
    (h : (pure none : Traced (Option Element)).result = .ok ans) : Answers t pos ans := by
  obtain rfl := Except.ok.inj h
  exact .missed

/-- At a cut, what `Answers` is in order and starts at or behind the position. -/
theorem sound_of_boundary {e : Element} (h : Answers t pos (some e))
    (hpos : t.isBoundary pos = true) : pos ≤ e.span.start ∧ e.Sound t := by
  cases h with
  | found _ hle hsound => exact ⟨hle, hsound⟩
  | misplaced _ hinside _ => simp [hpos] at hinside

/-- Inside a character, what `Answers` is `Misplaced`. -/
theorem misplaced_of_inside {e : Element} (h : Answers t pos (some e))
    (hinside : t.isBoundary pos = false) : e.Misplaced := by
  cases h with
  | found hpos _ _ => simp [hpos] at hinside
  | misplaced _ _ hmis => exact hmis

theorem le_size_of_some {e : Element} (h : Answers t pos (some e)) : pos ≤ t.size := by
  cases h with
  | found hpos _ _ => exact Text.le_size_of_isBoundary hpos
  | misplaced hpos _ _ => exact hpos

/-- The introduction rule of `Answers`: the positions of an element fit, and its parts are a `Row` within
    its span. -/
theorem answers_of_row {start stop lo hi : Nat} {span : Span} {x : Extent} {e : Element}
    (hx : (Extent.ofRange t start stop span).result = .ok x)
    (hfits : Bounds.Fits t ⟨start, stop, span⟩) (hpos : t.isBoundary pos = true)
    (hle : pos ≤ span.start) (hextent : e.extent = x) (hrow : Element.Row t lo e.parts hi)
    (hlo : span.start ≤ lo) (hhi : hi ≤ span.stop) : Answers t pos (some e) := by
  have hspan : e.span = span := by
    rw [Element.span, hextent, Extent.eq_of_ofRange hx hfits]
    rfl
  refine .found hpos (hspan ▸ hle) (.intro ?_ ?_ hrow.sound)
  · rw [hextent, Extent.eq_of_ofRange hx hfits]
    exact Extent.placed_of_fits hfits
  · rw [hspan]
    exact hrow.chain hlo hhi

/-- `answers_of_row` for elements without parts. -/
theorem answers_of_fits {start stop : Nat} {span : Span} {x : Extent} {e : Element}
    (hx : (Extent.ofRange t start stop span).result = .ok x)
    (hfits : Bounds.Fits t ⟨start, stop, span⟩) (hpos : t.isBoundary pos = true)
    (hle : pos ≤ span.start) (hextent : e.extent = x) (hparts : e.parts = []) :
    Answers t pos (some e) := by
  have hrow : Element.Row t span.start e.parts span.start := by
    rw [hparts]
    exact .nil (hfits.boundary span.start (by simp [Bounds.positions]))
  have hspan : span.start ≤ span.stop :=
    Nat.le_trans hfits.span_start_le (Nat.le_trans hfits.start_le_stop hfits.stop_le_span)
  exact answers_of_row hx hfits hpos hle hextent hrow (Nat.le_refl _) hspan

/-- `ofRange` makes nothing valid of a span that starts inside a character. -/
theorem eq_invalid_of_inside {start stop q : Nat} {x : Extent}
    (hx : (Extent.ofRange t start stop ⟨pos, q⟩).result = .ok x)
    (hinside : t.isBoundary pos = false) : x = .invalid := by
  refine Extent.eq_invalid_of_ofRange hx fun hfits => ?_
  have hpos := hfits.boundary pos (by simp [Bounds.positions])
  rw [hinside] at hpos
  cases hpos

/-- The other case of `Answers`, at a position inside a character: the element is invalid there, and
    neither a name nor a join, which would need valid parts. -/
theorem answers_of_inside {start stop q : Nat} {x : Extent} {e : Element}
    (hx : (Extent.ofRange t start stop ⟨pos, q⟩).result = .ok x) (hpos : pos ≤ t.size)
    (hinside : t.isBoundary pos = false) (hextent : e.extent = x) (hname : e.isName = false)
    (hjoin : ∀ y items, e ≠ .join y items) : Answers t pos (some e) := by
  refine .misplaced hpos hinside ⟨?_, hname, ?_⟩
  · rw [hextent]
    exact eq_invalid_of_inside hx hinside
  · intro y items he
    exact absurd he (hjoin y items)

/-- An empty match `Answers` fairly anywhere in the text. -/
theorem answers_empty {x : Extent} (hx : (Extent.ofRange t pos pos ⟨pos, pos⟩).result = .ok x)
    (hpos : pos ≤ t.size) : Answers t pos (some (.basic x)) := by
  by_cases hb : t.isBoundary pos = true
  · have hfits : Bounds.Fits t ⟨pos, pos, ⟨pos, pos⟩⟩ :=
      ⟨Nat.le_refl _, Nat.le_refl _, Nat.le_refl _, by simp [Bounds.positions, hb]⟩
    exact answers_of_fits hx hfits hb (Nat.le_refl _) rfl rfl
  · have hinside : t.isBoundary pos = false := by simpa using hb
    exact answers_of_inside hx hpos hinside rfl rfl (by simp)

/-! ## Recognisers given by expressions -/

/-- `Span.Within` for the rest of a text gives `Span.Within` for the text. -/
theorem within_shift {lo hi : Nat} {s : Span} (hrest : t.from? pos = some rest)
    (h : s.Within rest lo hi) :
    Span.Within t (pos + lo) (pos + hi) ⟨pos + s.start, pos + s.stop⟩ where
  le_start := Nat.add_le_add_left h.le_start pos
  start_le_stop := Nat.add_le_add_left h.start_le_stop pos
  stop_le := Nat.add_le_add_left h.stop_le pos
  start_boundary := by rw [Text.isBoundary_add hrest]; exact h.start_boundary
  stop_boundary := by rw [Text.isBoundary_add hrest]; exact h.stop_boundary

/-- `Fits` from two ranges, one inside the other. -/
theorem fits_of_within {lo hi : Nat} {span content : Span} (hspan : span.Within t lo hi)
    (hcontent : content.Within t span.start span.stop) :
    Bounds.Fits t ⟨content.start, content.stop, span⟩ where
  span_start_le := hcontent.le_start
  start_le_stop := hcontent.start_le_stop
  stop_le_span := hcontent.stop_le
  boundary := by
    simp [Bounds.positions, hspan.start_boundary, hspan.stop_boundary, hcontent.start_boundary,
      hcontent.stop_boundary]

/-- What `scan?` finds always `Fits`: `Regex.Program.within_of_find?` places the match, and
    `Regex.Program.within_of_group?` its first group inside of it. -/
theorem fits_of_scan? {p : Regex.Program} {b : Bounds} (h : p.scan? t pos = some b) :
    t.isBoundary pos = true ∧ pos ≤ b.span.start ∧ b.Fits t := by
  unfold Regex.Program.scan? at h
  split at h
  · obtain ⟨rest, hrest, h⟩ := Option.bind_eq_some_iff.mp h
    obtain ⟨found, hfound, rfl⟩ := Option.map_eq_some_iff.mp h
    have hspan := Regex.Program.within_of_find? hfound
    -- the content is the first group, or the whole match
    have hcontent : ((found.group? 1).getD found.span).Within rest found.span.start
        found.span.stop := by
      cases hgroup : found.group? 1 with
      | some s => exact Regex.Program.within_of_group? hfound hgroup
      | none => exact ⟨Nat.le_refl _, hspan.start_le_stop, Nat.le_refl _, hspan.start_boundary,
          hspan.stop_boundary⟩
    exact ⟨Text.isBoundary_of_from? hrest, Nat.le_add_right _ _,
      fits_of_within (within_shift hrest hspan) (within_shift hrest hcontent)⟩
  · cases h

/-- A recogniser of one program is `Sound` by the bounds of what the program finds. -/
theorem sound_ofProgram (p : Regex.Program) {kind : Extent → Element}
    (hextent : ∀ x, (kind x).extent = x) (hparts : ∀ x, (kind x).parts = []) :
    (ofProgram p kind).Sound := by
  intro t pos ans h
  unfold ofProgram at h
  split at h
  · exact answers_none h
  next b hb =>
    obtain ⟨hpos, hle, hfits⟩ := fits_of_scan? hb
    obtain ⟨x, hx, h⟩ := Traced.result_bind_eq_ok_iff.mp h
    obtain rfl := Except.ok.inj h
    exact answers_of_fits hx hfits hpos hle (hextent x) (hparts x)

theorem sound_bool : Sound bool := by
  intro t pos ans h
  unfold bool at h
  split at h
  · exact answers_none h
  next b hb =>
    obtain ⟨hpos, hle, hfits⟩ := fits_of_scan? hb
    obtain ⟨x, hx, h⟩ := Traced.result_bind_eq_ok_iff.mp h
    obtain rfl := Except.ok.inj h
    exact answers_of_fits hx hfits hpos hle rfl rfl

/-! ## Recognisers that read characters -/

theorem sound_empty : Sound empty := by
  intro t pos ans h
  unfold empty at h
  split at h
  · exact answers_none h
  next hle =>
    obtain ⟨x, hx, h⟩ := Traced.result_bind_eq_ok_iff.mp h
    obtain rfl := Except.ok.inj h
    exact answers_empty hx (Nat.le_of_not_lt hle)

/-- `Fits` for what stands after some skipped text, with a span from the position on. -/
theorem fits_of_skipped (skipped content more : Text) (hrest : t.from? pos = some rest)
    (h : rest = skipped ++ (content ++ more)) :
    Bounds.Fits t ⟨pos + skipped.size, pos + skipped.size + content.size,
      ⟨pos, pos + skipped.size + content.size⟩⟩ := by
  subst h
  have hpos := Text.isBoundary_of_from? hrest
  have hstart : t.isBoundary (pos + skipped.size) = true := by
    rw [Text.isBoundary_add hrest]
    exact Text.isBoundary_size_append _ _
  have hstop : t.isBoundary (pos + skipped.size + content.size) = true := by
    rw [Nat.add_assoc, Text.isBoundary_add hrest, ← Text.size_append, ← List.append_assoc]
    exact Text.isBoundary_size_append _ _
  refine ⟨Nat.le_add_right _ _, Nat.le_add_right _ _, Nat.le_refl _, ?_⟩
  simp [Bounds.positions, hpos, hstart, hstop]

theorem sound_plain (literal : Text) : Sound (plain literal) := by
  intro t pos ans h
  unfold plain at h
  split at h
  · split at h
    · exact answers_none h
    next rest hrest =>
      split at h
      next hprefix =>
        obtain ⟨x, hx, h⟩ := Traced.result_bind_eq_ok_iff.mp h
        obtain rfl := Except.ok.inj h
        obtain ⟨more, rfl⟩ := List.isPrefixOf_iff_prefix.mp hprefix
        have hfits := fits_of_skipped [] literal more hrest rfl
        exact answers_of_fits hx hfits (Text.isBoundary_of_from? hrest) (Nat.le_refl _) rfl rfl
      · exact answers_none h
  · exact answers_none h

theorem sound_symbol (literal : Text) : Sound (symbol literal) := by
  intro t pos ans h
  unfold symbol at h
  split at h
  · split at h
    · exact answers_none h
    next rest hrest =>
      split at h
      next hprefix =>
        obtain ⟨x, hx, h⟩ := Traced.result_bind_eq_ok_iff.mp h
        obtain rfl := Except.ok.inj h
        obtain ⟨more, hmore⟩ := List.isPrefixOf_iff_prefix.mp hprefix
        have hsplit : rest = rest.takeWhile isSkipped ++ (literal ++ more) := by
          rw [hmore, List.takeWhile_append_dropWhile]
        have hfits := fits_of_skipped _ literal more hrest hsplit
        exact answers_of_fits hx hfits (Text.isBoundary_of_from? hrest) (Nat.le_refl _) rfl rfl
      · exact answers_none h
  · exact answers_none h

theorem sound_string : Sound string := by
  intro t pos ans h
  unfold string at h
  split at h
  · exact answers_none h
  next rest hrest =>
    dsimp only at h
    rcases hraw : rawMarker (rest.dropWhile isSkipped) with ⟨raw, quoted⟩
    have hquoted := eq_of_rawMarker hraw
    rw [hraw] at h
    dsimp only at h
    split at h
    · exact answers_none h
    next mark body =>
      split at h
      next hmark =>
        have hwidth : mark.utf8Size = 1 := by
          rcases hmark with rfl | rfl <;> rfl
        have hbackslash : mark ≠ '\\' := by
          rcases hmark with rfl | rfl <;> decide
        split at h
        · exact answers_none h
        next length hlength =>
          obtain ⟨x, hx, h⟩ := Traced.result_bind_eq_ok_iff.mp h
          obtain rfl := Except.ok.inj h
          obtain ⟨inner, more, rfl, rfl, -⟩ := exists_of_closingQuote? hbackslash hlength
          -- the content is the marker, the mark, what is quoted, and the mark again
          let content : Text := Token.marker raw ++ mark :: (inner ++ [mark])
          have hsplit : rest = rest.takeWhile isSkipped ++ (content ++ more) := by
            calc
              rest = rest.takeWhile isSkipped ++ rest.dropWhile isSkipped :=
                List.takeWhile_append_dropWhile.symm
              _ = rest.takeWhile isSkipped ++ (content ++ more) := by
                rw [hquoted]
                simp [content]
          have hsize : Text.size content = (if raw then 2 else 1) + Text.size inner + 1 := by
            simp [content, size_marker, hwidth]
            split <;> omega
          have hfits := fits_of_skipped _ content more hrest hsplit
          rw [hsize, ← Nat.add_assoc, ← Nat.add_assoc] at hfits
          exact answers_of_fits hx hfits (Text.isBoundary_of_from? hrest) (Nat.le_refl _) rfl rfl
      · exact answers_none h

/-! ## Numbers -/

/-- The form of the matcher of `numberProgram`: what may stand before the integer, the integer, and the
    rest. -/
theorem exists_matcher_number : ∃ edge blanks integer fraction,
    Token.numberProgram.matcher = .seq edge (.seq blanks (.seq (.capture 1 integer) fraction)) ∧
      edge.indices = [] ∧ blanks.indices = [] ∧ integer.indices = [] ∧ fraction.indices = [2] :=
  ⟨_, _, _, _, rfl, rfl, rfl, rfl, rfl⟩

/-- The second group of a number lies behind the first one, by `Regex.Matcher.within_of_later_group`. -/
theorem within_of_fraction {found : Regex.Match} {integer fraction : Span}
    (h : Token.numberProgram.find? rest = some found) (hinteger : found.group? 1 = some integer)
    (hfraction : found.group? 2 = some fraction) :
    fraction.Within rest integer.stop found.span.stop := by
  obtain ⟨x, y, hx, hnil, hy, rfl⟩ := Regex.Program.exists_path_of_find? h
  obtain ⟨edge, blanks, first, later, hmatcher, hedge, hblanks, hfirst, hlater⟩ :=
    exists_matcher_number
  rw [hmatcher] at hy
  -- the edge and the blanks are passed before the integer part, and note no groups
  obtain ⟨x', hx', hy⟩ := List.mem_flatMap.mp hy
  obtain ⟨z, hz, hy⟩ := List.mem_flatMap.mp hy
  have htoEdge := hedge ▸ Regex.Matcher.reaches_of_mem_paths edge hx hx'
  have htoBlanks := hblanks ▸ Regex.Matcher.reaches_of_mem_paths blanks htoEdge.on hz
  have hnil' : z.groups = [] := by
    rw [htoBlanks.groups_eq, htoEdge.groups_eq, hnil]
  exact Regex.Matcher.within_of_later_group htoBlanks.on hnil' hy (by simp [hlater])
    (by simp [Regex.Matcher.indices, hfirst]) hinteger hfraction

theorem sound_number : Sound number := by
  intro t pos ans h
  unfold number at h
  split at h
  · split at h
    · exact answers_none h
    next rest hrest =>
      split at h
      · exact answers_none h
      next found hfound =>
        split at h
        · exact answers_none h
        next integer hinteger =>
          obtain ⟨x, hx, h⟩ := Traced.result_bind_eq_ok_iff.mp h
          obtain rfl := Except.ok.inj h
          have hspan := Regex.Program.within_of_find? hfound
          have hint := Regex.Program.within_of_group? hfound hinteger
          -- the content ends with the fraction if there is one
          have hcontent : Span.Within rest found.span.start found.span.stop
              ⟨integer.start, ((found.group? 2).map Span.stop).getD integer.stop⟩ := by
            cases hfraction : found.group? 2 with
            | none => exact hint
            | some fraction =>
                have hfrac := within_of_fraction hfound hinteger hfraction
                have hstop := Nat.le_trans hfrac.le_start hfrac.start_le_stop
                exact ⟨hint.le_start, Nat.le_trans hint.start_le_stop hstop, hfrac.stop_le,
                  hint.start_boundary, hfrac.stop_boundary⟩
          have hfits := fits_of_within (within_shift hrest hspan) (within_shift hrest hcontent)
          exact answers_of_fits hx hfits (Text.isBoundary_of_from? hrest) (Nat.le_add_right _ _)
            rfl rfl
  · exact answers_none h

end Recognizer

end Graft
