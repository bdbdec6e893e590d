import Graft.Proofs.Recognizer.Combinator

/-!
# `Graft.Proofs.Recognizer.List` — separated lists and type names

Lists of sound items are sound (`sound_list`), and so are type names (`sound_typeName`).

A list has no row of everything it took up: it keeps its items and forgets its separators and brackets.
What is known while its items are read is therefore said of the two ends that it remembers
(`ItemRun.Lined`): the items are a row up to the end of the last of them, and the last token ends no
earlier. This is enough wherever the list is then said to end, at a closing bracket, at its last
separator, or at its last item when that separator is given back.
-/

namespace Graft

namespace Recognizer

variable {t : Text} {pos : Nat}

/-! ## Lists -/

/-- A token that ends no earlier than a position, with cuts at the ends of its content and of what it
    took up. -/
structure TokenEnd.After (t : Text) (pos : Nat) (e : TokenEnd) : Prop where
  le_stop : pos ≤ e.stop
  stop_le : e.stop ≤ e.taken
  stop_boundary : t.isBoundary e.stop = true
  taken_boundary : t.isBoundary e.taken = true

theorem TokenEnd.After.mono {lo hi : Nat} {e : TokenEnd} (h : e.After t hi) (hle : lo ≤ hi) :
    e.After t lo :=
  { h with le_stop := Nat.le_trans hle h.le_stop }

theorem TokenEnd.after_of_placed {e : Element} (h : e.extent.Placed t) :
    (TokenEnd.of e).After t e.stop :=
  ⟨Nat.le_refl _, h.stop_le_span, h.stop_boundary, h.span_stop_boundary⟩

/-- What reading the items of a list keeps up: the items are a row from where they began, and the last
    token read ends no earlier than the last item. -/
structure ItemRun.Lined (t : Text) (begin : Nat) (run : ItemRun) : Prop where
  row : Element.Row t begin run.items run.item.taken
  first_le : ∀ first, run.items.head? = some first → first.start ≤ run.item.stop
  item : run.item.After t begin
  last : run.last.After t run.item.stop
  taken_le : run.item.taken ≤ run.last.taken

namespace ItemRun

variable {begin : Nat} {run : ItemRun} {e : Element}

theorem lined_start (h : t.isBoundary begin = true) : (start begin).Lined t begin where
  row := .nil h
  first_le := by
    intro first hfirst
    cases hfirst
  item := ⟨Nat.le_refl _, Nat.le_refl _, h, h⟩
  last := ⟨Nat.le_refl _, Nat.le_refl _, h, h⟩
  taken_le := Nat.le_refl _

theorem Lined.addItem (h : run.Lined t begin) (hle : run.last.taken ≤ e.span.start)
    (he : e.Sound t) : (run.addItem e).Lined t begin := by
  have hp := he.placed
  have hstop : run.last.stop ≤ e.start :=
    Nat.le_trans h.last.stop_le (Nat.le_trans hle hp.span_start_le)
  have hitem : run.item.stop ≤ e.stop :=
    Nat.le_trans h.last.le_stop (Nat.le_trans hstop hp.start_le_stop)
  refine ⟨h.row.snoc (Nat.le_trans h.taken_le hle) he, ?_, ?_, ?_, Nat.le_refl _⟩
  · -- the first item is the new one only if there was none before
    intro first hfirst
    cases hitems : run.items with
    | nil =>
        rw [show (run.addItem e).items = run.items ++ [e] from rfl, hitems] at hfirst
        obtain rfl := Option.some.inj hfirst
        exact hp.start_le_stop
    | cons head rest =>
        rw [show (run.addItem e).items = run.items ++ [e] from rfl, hitems] at hfirst
        obtain rfl := Option.some.inj hfirst
        exact Nat.le_trans (h.first_le head (by rw [hitems]; rfl)) hitem
  · exact (TokenEnd.after_of_placed hp).mono (Nat.le_trans h.item.le_stop hitem)
  · exact TokenEnd.after_of_placed hp

theorem Lined.addSeparator (h : run.Lined t begin) (hle : run.last.taken ≤ e.span.start)
    (he : e.Sound t) : (run.addSeparator e).Lined t begin := by
  have hp := he.placed
  have hstop : run.last.stop ≤ e.stop := Nat.le_trans h.last.stop_le (Nat.le_trans hle
    (Nat.le_trans hp.span_start_le hp.start_le_stop))
  have htaken : run.last.taken ≤ e.span.stop := Nat.le_trans hle hp.span_start_le_stop
  exact ⟨h.row, h.first_le, h.item,
    (TokenEnd.after_of_placed hp).mono (Nat.le_trans h.last.le_stop hstop),
    Nat.le_trans h.taken_le htaken⟩

end ItemRun

/-- `Lined` is the invariant of the loop. `addItem` and `addSeparator` keep it, so `runItems` does. -/
theorem lined_runItems {item separator : Recognizer} (hitem : Sound item)
    (hseparator : Sound separator) {begin bound : Nat} {run run' : ItemRun}
    (hrun : run.Lined t begin) (h : (runItems t item separator bound run).result = .ok run') :
    run'.Lined t begin := by
  induction bound generalizing run with
  | zero => cases h
  | succ bound ih =>
      obtain ⟨found, hfound, h⟩ := Traced.result_bind_eq_ok_iff.mp h
      cases found with
      | none =>
          obtain rfl := Except.ok.inj h
          exact hrun
      | some e =>
          have hanswer := hitem t run.last.taken _ hfound
          obtain ⟨hle, hsound⟩ := sound_of_boundary hanswer hrun.last.taken_boundary
          have hnext := hrun.addItem hle hsound
          obtain ⟨found, hfound, h⟩ := Traced.result_bind_eq_ok_iff.mp h
          cases found with
          | none =>
              obtain rfl := Except.ok.inj h
              exact hnext
          | some s =>
              have hanswer := hseparator t (run.addItem e).last.taken _ hfound
              obtain ⟨hle, hsound⟩ := sound_of_boundary hanswer hnext.last.taken_boundary
              dsimp only at h
              split at h
              · obtain rfl := Except.ok.inj h
                exact hnext
              · exact ih (hnext.addSeparator hle hsound) h

/-- `runItems` reads nothing past the end of the text. -/
theorem le_size_of_runItems {item separator : Recognizer} (hitem : Sound item) {bound : Nat}
    {run : ItemRun} (h : (runItems t item separator bound (.start pos)).result = .ok run)
    (hitems : run.items ≠ []) : pos ≤ t.size := by
  cases bound with
  | zero => cases h
  | succ bound =>
      obtain ⟨found, hfound, h⟩ := Traced.result_bind_eq_ok_iff.mp h
      cases found with
      | none =>
          obtain rfl := Except.ok.inj h
          exact absurd rfl hitems
      | some e => exact le_size_of_some (hitem t pos _ hfound)

/-- `close?` keeps the items, and ends the list no earlier than the last of them. -/
theorem after_of_close? {shape : ListShape} (hclosing : ∀ p ∈ shape.closing, Sound p)
    {begin : Nat} {run run' : ItemRun} {stop : TokenEnd} (hrun : run.Lined t begin)
    (h : (shape.close? t run).result = .ok (some (run', stop))) :
    run'.items = run.items ∧ stop.After t run.item.stop ∧ run.item.taken ≤ stop.taken := by
  unfold ListShape.close? at h
  dsimp only at h
  split at h
  · obtain ⟨rfl, rfl⟩ := Prod.mk.inj (Option.some.inj (Except.ok.inj h))
    split
    · -- the separator at the end is left out
      have hitem : run.item.After t run.item.stop := { hrun.item with le_stop := Nat.le_refl _ }
      exact ⟨rfl, hitem, Nat.le_refl _⟩
    · exact ⟨rfl, hrun.last, hrun.taken_le⟩
  next p hp =>
    split at h
    · cases h
    obtain ⟨found, hfound, h⟩ := Traced.result_bind_eq_ok_iff.mp h
    cases found with
    | none => cases h
    | some e =>
        obtain ⟨rfl, rfl⟩ := Prod.mk.inj (Option.some.inj (Except.ok.inj h))
        have hanswer := hclosing p hp t run.last.taken _ hfound
        obtain ⟨hle, hsound⟩ := sound_of_boundary hanswer hrun.last.taken_boundary
        -- a closing bracket stands where one more separator might have stood
        have hlast := (hrun.addSeparator hle hsound).last
        have htaken := (hrun.addSeparator hle hsound).taken_le
        exact ⟨rfl, hlast, htaken⟩

/-- The inversion of `open?`: where the list was opened, and where its items begin. -/
theorem exists_of_open? {shape : ListShape} {start? : Option Nat} {begin : Nat}
    (h : (shape.open? t pos).result = .ok (some (start?, begin))) :
    (shape.opening = none ∧ start? = none ∧ begin = pos) ∨
      ∃ p e, shape.opening = some p ∧ (p t pos).result = .ok (some e) ∧ start? = some e.start ∧
        begin = e.span.stop := by
  unfold ListShape.open? at h
  split at h
  next hnone =>
    obtain ⟨rfl, rfl⟩ := Prod.mk.inj (Option.some.inj (Except.ok.inj h))
    exact .inl ⟨hnone, rfl, rfl⟩
  next p hp =>
    obtain ⟨found, hfound, h⟩ := Traced.result_bind_eq_ok_iff.mp h
    cases found with
    | none => cases h
    | some e =>
        obtain ⟨rfl, rfl⟩ := Prod.mk.inj (Option.some.inj (Except.ok.inj h))
        exact .inr ⟨p, e, hp, hfound, rfl, rfl⟩

/-- At a cut of the text, `open?` puts the opening bracket between the position and the items. -/
theorem le_of_open? {shape : ListShape} (hopening : ∀ p ∈ shape.opening, Sound p)
    {start? : Option Nat} {begin : Nat} (hpos : t.isBoundary pos = true)
    (h : (shape.open? t pos).result = .ok (some (start?, begin))) :
    pos ≤ begin ∧ t.isBoundary begin = true ∧
      ∀ start ∈ start?, pos ≤ start ∧ start ≤ begin ∧ t.isBoundary start = true := by
  rcases exists_of_open? h with ⟨-, rfl, rfl⟩ | ⟨p, e, hp, he, rfl, rfl⟩
  · refine ⟨Nat.le_refl _, hpos, ?_⟩
    intro start hstart
    cases hstart
  · obtain ⟨hle, hsound⟩ := sound_of_boundary (hopening p hp t pos _ he) hpos
    have hplaced := hsound.placed
    have hfrom : pos ≤ e.start := Nat.le_trans hle hplaced.span_start_le
    have hto : e.start ≤ e.span.stop := hplaced.start_le_span_stop
    refine ⟨Nat.le_trans hfrom hto, hplaced.span_stop_boundary, ?_⟩
    intro start hstart
    obtain rfl := Option.some.inj hstart
    exact ⟨hfrom, hto, hplaced.start_boundary⟩

/-- Where a list starts, at its opening bracket or at its first item, is in front of the end of its last
    item. With `after_of_close?` this makes the content of `list` a range. -/
theorem le_of_start {start? : Option Nat} {begin start : Nat} {run : ItemRun}
    (hrun : run.Lined t begin) (hle : pos ≤ begin)
    (hopen : ∀ start ∈ start?, pos ≤ start ∧ start ≤ begin ∧ t.isBoundary start = true)
    (h : (start? <|> run.items.head?.map Element.start) = some start) :
    pos ≤ start ∧ start ≤ run.item.stop ∧ t.isBoundary start = true := by
  cases start? with
  | some s =>
      obtain rfl := Option.some.inj h
      obtain ⟨hfrom, hto, hb⟩ := hopen s rfl
      exact ⟨hfrom, Nat.le_trans hto hrun.item.le_stop, hb⟩
  | none =>
      obtain ⟨first, hfirst, rfl⟩ := Option.map_eq_some_iff.mp h
      obtain ⟨hfrom, hsound⟩ := hrun.row.head hfirst
      have hstart := Nat.le_trans hfrom hsound.placed.span_start_le
      exact ⟨Nat.le_trans hle hstart, hrun.first_le first hfirst, hsound.placed.start_boundary⟩

/-- Lists are `Sound`: their runs are `Lined`, between the brackets. -/
theorem sound_list {shape : ListShape} (hitem : Sound shape.item)
    (hseparator : Sound shape.separator) (hopening : ∀ p ∈ shape.opening, Sound p)
    (hclosing : ∀ p ∈ shape.closing, Sound p) : Sound (list shape) := by
  intro t pos ans h
  obtain ⟨opened, hopen, h⟩ := Traced.result_bind_eq_ok_iff.mp h
  rcases opened with _ | ⟨start?, begin⟩
  · exact answers_none h
  obtain ⟨run, hrun, h⟩ := Traced.result_bind_eq_ok_iff.mp h
  split at h
  · exact answers_none h
  next hitems =>
    obtain ⟨closed, hclose, h⟩ := Traced.result_bind_eq_ok_iff.mp h
    rcases closed with _ | ⟨run', stop⟩
    · exact answers_none h
    dsimp only at h
    split at h
    · exact answers_none h
    next start hstart =>
      obtain ⟨x, hx, h⟩ := Traced.result_bind_eq_ok_iff.mp h
      obtain rfl := Except.ok.inj h
      by_cases hpos : t.isBoundary pos = true
      · obtain ⟨hle, hbegin, hopened⟩ := le_of_open? hopening hpos hopen
        have hlined := lined_runItems hitem hseparator (ItemRun.lined_start hbegin) hrun
        obtain ⟨hsame, hafter, htaken⟩ := after_of_close? hclosing hlined hclose
        rw [hsame] at hstart
        obtain ⟨hfrom, hto, hb⟩ := le_of_start hlined hle hopened hstart
        have hfits : Bounds.Fits t ⟨start, stop.stop, ⟨pos, stop.taken⟩⟩ := by
          refine ⟨hfrom, Nat.le_trans hto hafter.le_stop, hafter.stop_le, ?_⟩
          simp [Bounds.positions, hpos, hb, hafter.stop_boundary, hafter.taken_boundary]
        have hrow : Element.Row t begin run'.items run.item.taken := hsame ▸ hlined.row
        exact answers_of_row hx hfits hpos (Nat.le_refl _) rfl hrow hle htaken
      · have hinside : t.isBoundary pos = false := by simpa using hpos
        -- something was read at the position: the bracket or, without one, an item
        have hsize : pos ≤ t.size := by
          rcases exists_of_open? hopen with ⟨hnone, -, rfl⟩ | ⟨p, e, hp, he, -, -⟩
          · refine le_size_of_runItems hitem hrun fun hnil => hitems ?_
            simp [hnil, ListShape.mayBeEmpty, hnone]
          · exact le_size_of_some (hopening p hp t pos _ he)
        exact answers_of_inside hx hsize hinside rfl rfl (by simp)

/-! ## Type names -/

/-- The inversion of `asTypeName`: it was applied to a name, or to the join of a name and a list. -/
theorem exists_of_asTypeName {e e' : Element} (h : (asTypeName t e).result = .ok e') :
    (∃ name, (e = .word name ∨ e = .dottedWord name) ∧
      (Element.ofName t name name.span).result = .ok e') ∨
    ∃ x first name arguments items trailing,
      e = .join x [first, .list arguments items trailing] ∧
      (first = .word name ∨ first = .dottedWord name) ∧
      (Element.ofGeneric t name arguments items trailing x.span).result = .ok e' := by
  unfold asTypeName at h
  split at h
  next name => exact .inl ⟨name, .inl rfl, h⟩
  next name => exact .inl ⟨name, .inr rfl, h⟩
  next x name arguments items trailing =>
    exact .inr ⟨x, _, name, arguments, items, trailing, rfl, .inl rfl, h⟩
  next x name arguments items trailing =>
    exact .inr ⟨x, _, name, arguments, items, trailing, rfl, .inr rfl, h⟩
  · cases h
  · cases h

theorem extent_of_name {e : Element} {name : Extent} (h : e = .word name ∨ e = .dottedWord name) :
    e.extent = name ∧ e.isName = true := by
  rcases h with rfl | rfl <;> exact ⟨rfl, rfl⟩

/-- In a type name the word becomes a `basic` element, which is `Sound` where the word was. -/
theorem sound_basic {name : Extent} (h : name.Placed t) : (Element.basic name).Sound t := by
  exact .intro h h.span_start_le_stop (by simp [Element.parts])

/-- `Element.ofName` keeps the place of the word, so it `Answers` fairly. -/
theorem answers_ofName {e e' : Element} (hpos : t.isBoundary pos = true)
    (hle : pos ≤ e.span.start) (hsound : e.Sound t)
    (h : (Element.ofName t e.extent e.extent.span).result = .ok e') : Answers t pos (some e') := by
  obtain ⟨x, hx, h⟩ := Traced.result_bind_eq_ok_iff.mp h
  obtain rfl := Except.ok.inj h
  have hplaced := hsound.placed
  have hrow : Element.Row t e.extent.span.start [.basic e.extent] e.extent.span.stop :=
    .cons (Nat.le_refl _) (sound_basic hplaced) (.nil hplaced.span_stop_boundary)
  exact answers_of_row hx hplaced.fits hpos hle rfl hrow (Nat.le_refl _) (Nat.le_refl _)

/-- `Element.ofGeneric` covers what the join of name and arguments did. Its content ends with what the
    arguments took up, their closing bracket included. -/
theorem answers_ofGeneric {e' first : Element} {x arguments : Extent} {items : List Element}
    {trailing : Bool} (hpos : t.isBoundary pos = true) (hle : pos ≤ x.span.start)
    (hsound : (Element.join x [first, .list arguments items trailing]).Sound t)
    (h : (Element.ofGeneric t first.extent arguments items trailing x.span).result = .ok e') :
    Answers t pos (some e') := by
  obtain ⟨y, hy, h⟩ := Traced.result_bind_eq_ok_iff.mp h
  obtain rfl := Except.ok.inj h
  have hplaced : x.Placed t := hsound.placed
  have hfirst := (hsound.parts first (by simp [Element.parts])).placed
  have hlist := hsound.parts (.list arguments items trailing) (by simp [Element.parts])
  have hplacedList : arguments.Placed t := hlist.placed
  obtain ⟨hfrom, hnext, hstop⟩ :
      x.span.start ≤ first.extent.span.start ∧
        first.extent.span.stop ≤ arguments.span.start ∧
        arguments.span.stop ≤ x.span.stop := hsound.chain
  have hinner : first.extent.start ≤ arguments.span.stop :=
    calc
      first.extent.start ≤ first.extent.span.stop := hfirst.start_le_span_stop
      _ ≤ arguments.span.start := hnext
      _ ≤ arguments.span.stop := hplacedList.span_start_le_stop
  have hfits : Bounds.Fits t ⟨first.extent.start, arguments.span.stop, x.span⟩ := by
    refine ⟨Nat.le_trans hfrom hfirst.span_start_le, hinner, hstop, ?_⟩
    simp [Bounds.positions, hplaced.span_start_boundary, hplaced.span_stop_boundary,
      hfirst.start_boundary, hplacedList.span_stop_boundary]
  have hrow : Element.Row t x.span.start
      [.basic first.extent, .list arguments items trailing] arguments.span.stop :=
    .cons hfrom (sound_basic hfirst) (.cons hnext hlist (.nil hplacedList.span_stop_boundary))
  exact answers_of_row hy hfits hpos hle rfl hrow (Nat.le_refl _) hstop

/-- `asTypeName` of a fair answer is a fair answer, by `answers_ofName` and `answers_ofGeneric`. -/
theorem answers_asTypeName {e e' : Element} (h : (asTypeName t e).result = .ok e')
    (hanswer : Answers t pos (some e)) : Answers t pos (some e') := by
  cases hanswer with
  | found hpos hle hsound =>
      rcases exists_of_asTypeName h with ⟨name, hname, h⟩ |
        ⟨x, first, name, arguments, items, trailing, rfl, hname, h⟩
      · obtain ⟨rfl, -⟩ := extent_of_name hname
        exact answers_ofName hpos hle hsound h
      · obtain ⟨rfl, -⟩ := extent_of_name hname
        exact answers_ofGeneric hpos hle hsound h
  | misplaced hpos hinside hmis =>
      -- what is answered inside a character is neither a name nor starts with one
      rcases exists_of_asTypeName h with ⟨name, hname, -⟩ |
        ⟨x, first, name, arguments, items, trailing, rfl, hname, -⟩
      · have := (extent_of_name hname).2
        rw [hmis.not_name] at this
        cases this
      · obtain ⟨head, rest, hitems, hhead⟩ := hmis.first_not_name x _ rfl
        obtain ⟨rfl, -⟩ := List.cons.inj hitems
        rw [(extent_of_name hname).2] at hhead
        cases hhead

theorem sound_arguments {argument : Recognizer} (h : Sound argument) :
    Sound (arguments argument) := by
  apply sound_list h (sound_symbol _)
  · rintro p ⟨⟩
    exact sound_symbol _
  · rintro p ⟨⟩
    exact sound_symbol _

/-- What `typeName` hands to `asTypeName`: a name with arguments, or else the name alone. -/
theorem sound_nameOrGeneric {name argument : Recognizer} (hname : Sound name)
    (hargument : Sound argument) : Sound (choice [join [name, arguments argument], name]) := by
  have hgeneric : Sound (join [name, arguments argument]) := by
    apply sound_join
    rintro p (_ | ⟨_, _ | ⟨_, ⟨⟩⟩⟩)
    · exact hname
    · exact sound_arguments hargument
  apply sound_choice
  rintro p (_ | ⟨_, _ | ⟨_, ⟨⟩⟩⟩)
  · exact hgeneric
  · exact hname

/-- Type names are `Sound`, as a name and a list of arguments. -/
theorem sound_typeName {name argument : Recognizer} (hname : Sound name)
    (hargument : Sound argument) : Sound (typeName name argument) := by
  intro t pos ans h
  obtain ⟨found, hfound, h⟩ := Traced.result_bind_eq_ok_iff.mp h
  cases found with
  | none => exact answers_none h
  | some e =>
      obtain ⟨e', he', h⟩ := Traced.result_bind_eq_ok_iff.mp h
      obtain rfl := Except.ok.inj h
      exact answers_asTypeName he' (sound_nameOrGeneric hname hargument t pos _ hfound)

end Recognizer

end Graft
