import Graft.Proofs.Recognizer.List
import Graft.Proofs.Recognizer.Name
import Graft.Proofs.Regex.Begin

/-!
# `Graft.Proofs.Recognizer.Flush` — recognisers that pass over white space first

Most recognisers pass over white space before they read anything, so that what they answer starts with
the first character that is none (`Recognizer.Flush`). The combinators take over where their first part
starts, and keep this up if that part does. An optional part does not: where it is missing, it answers
an empty element right at the position, in front of the white space.
-/

namespace Graft

/-- A character that is not white space. -/
def Unicode.IsVisible (c : Char) : Prop :=
  isWhiteSpace c = false

/-- An element that starts with the first character from a position on that is not white space, and
    takes that character up. A join starts where its first part does. -/
structure Element.Flush (t : Text) (pos : Nat) (e : Element) : Prop where
  blank : ∃ s, t.slice? pos e.start = some s ∧ s.isBlank = true
  first : ∃ c more, t.slice? e.start e.span.stop = some (c :: more) ∧ Unicode.IsVisible c
  head : ∀ x part rest, e = .join x (part :: rest) → part.start = e.start

/-- Wrapping keeps `Flush`: an element that starts as a flush one does and takes up no less is flush as
    well. This is what `join`, `group` and `list` do with their first part. -/
theorem Element.Flush.widen {t : Text} {pos : Nat} {e e' : Element} (h : e.Flush t pos)
    (hstart : e'.start = e.start) (hle : e.span.stop ≤ e'.span.stop) (he : e.Sound t)
    (he' : e'.Sound t) (hhead : ∀ x part rest, e' = .join x (part :: rest) → part.start = e'.start) :
    e'.Flush t pos := by
  obtain ⟨c, more, hslice, hc⟩ := h.first
  obtain ⟨m, hm⟩ :=
    Text.exists_slice? hle he.placed.span_stop_boundary he'.placed.span_stop_boundary
  refine ⟨hstart ▸ h.blank, ⟨c, more ++ m, ?_, hc⟩, hhead⟩
  rw [hstart]
  exact Text.slice?_append hslice hm

namespace Recognizer

/-- A recogniser that only answers flush elements, wherever the text can be cut. -/
def Flush (p : Recognizer) : Prop :=
  ∀ t pos e, t.isBoundary pos = true → (p t pos).result = .ok (some e) → e.Flush t pos

variable {t : Text} {pos : Nat}

/-! ## Tokens -/

/-- The base case of `Flush`: an element without parts that starts behind white space, at a character that
    `IsVisible`. -/
theorem flush_of_from? {blanks more : Text} {c : Char} {e : Element}
    (hrest : t.from? pos = some (blanks ++ c :: more)) (hblanks : blanks.isBlank = true)
    (hc : Unicode.IsVisible c) (he : e.Sound t) (hstart : e.start = pos + blanks.size)
    (hlt : e.start < e.span.stop) (hparts : e.parts = []) : e.Flush t pos := by
  have hplaced := he.placed
  obtain ⟨before, rfl, rfl⟩ := Text.exists_of_from? hrest
  refine ⟨⟨blanks, ?_, hblanks⟩, ?_, ?_⟩
  · exact Text.slice?_eq_some_iff.mpr ⟨before, c :: more, rfl, rfl, hstart.symm⟩
  · obtain ⟨m, hm⟩ := Text.exists_slice? (Nat.le_of_lt hlt) hplaced.start_boundary
      hplaced.span_stop_boundary
    obtain ⟨s, r, hsplit, hs, hsize⟩ := Text.slice?_eq_some_iff.mp hm
    -- what the element takes up begins where the white space ends
    obtain ⟨-, hmore⟩ : before ++ blanks = s ∧ c :: more = m ++ r :=
      Text.append_inj_of_size (by simpa using hsplit) (by rw [hs, hstart, Text.size_append])
    cases m with
    | nil =>
        rw [Text.size_nil] at hsize
        omega
    | cons d m =>
        obtain ⟨rfl, -⟩ := List.cons.inj hmore
        exact ⟨c, m, hm, hc⟩
  · rintro x part rest rfl
    cases hparts

theorem isBlank_takeWhile_isSkipped (s : Text) :
    Text.isBlank (s.takeWhile isSkipped) = true := by
  refine List.all_eq_true.mpr fun c hc => ?_
  have hskipped := List.all_eq_true.mp (List.all_takeWhile (p := isSkipped) (l := s)) c hc
  simp only [isSkipped, Bool.or_eq_true, decide_eq_true_eq] at hskipped
  rcases hskipped with ((rfl | rfl) | rfl) | rfl <;> rfl

/-- If what `ofRange` makes is part of a sound element, the positions were those of the element. -/
theorem start_of_ofRange {start stop : Nat} {span : Span} {x : Extent} {e : Element}
    (hx : (Extent.ofRange t start stop span).result = .ok x) (hextent : e.extent = x)
    (he : e.Sound t) : e.start = start ∧ e.span = span ∧ stop ≤ span.stop := by
  have hvalid := he.placed.valid
  rw [hextent] at hvalid
  by_cases hfits : Bounds.Fits t ⟨start, stop, span⟩
  · rw [Element.start, Element.span, hextent, Extent.eq_of_ofRange hx hfits]
    exact ⟨rfl, rfl, hfits.stop_le_span⟩
  · rw [Extent.eq_invalid_of_ofRange hx hfits] at hvalid
    cases hvalid

theorem flush_plain {literal : Text} (h : ∃ c, literal.head? = some c ∧ Unicode.IsVisible c) :
    (plain literal).Flush := by
  intro t pos e hpos hresult
  have hsound := (sound_of_boundary (sound_plain literal t pos _ hresult) hpos).2
  obtain ⟨c, hhead, hc⟩ := h
  obtain ⟨others, rfl⟩ := List.head?_eq_some_iff.mp hhead
  have := c.utf8Size_pos
  unfold plain at hresult
  split at hresult
  · split at hresult
    · cases hresult
    next rest hrest =>
      split at hresult
      next hprefix =>
        obtain ⟨x, hx, hresult⟩ := Traced.result_bind_eq_ok_iff.mp hresult
        obtain rfl := Option.some.inj (Except.ok.inj hresult)
        obtain ⟨more, rfl⟩ := List.isPrefixOf_iff_prefix.mp hprefix
        obtain ⟨hstart, hspan, -⟩ := start_of_ofRange hx rfl hsound
        have hahead : t.from? pos = some ([] ++ c :: (others ++ more)) := hrest
        refine flush_of_from? hahead rfl hc hsound hstart ?_ rfl
        rw [hstart, hspan, Text.size_cons]
        dsimp only
        omega
      · cases hresult
  · cases hresult

theorem flush_symbol {literal : Text} (h : ∃ c, literal.head? = some c ∧ Unicode.IsVisible c) :
    (symbol literal).Flush := by
  intro t pos e hpos hresult
  have hsound := (sound_of_boundary (sound_symbol literal t pos _ hresult) hpos).2
  obtain ⟨c, hhead, hc⟩ := h
  obtain ⟨others, rfl⟩ := List.head?_eq_some_iff.mp hhead
  have := c.utf8Size_pos
  unfold symbol at hresult
  split at hresult
  · split at hresult
    · cases hresult
    next rest hrest =>
      split at hresult
      next hprefix =>
        obtain ⟨x, hx, hresult⟩ := Traced.result_bind_eq_ok_iff.mp hresult
        obtain rfl := Option.some.inj (Except.ok.inj hresult)
        obtain ⟨more, hmore⟩ := List.isPrefixOf_iff_prefix.mp hprefix
        have hsplit : rest = rest.takeWhile isSkipped ++ (c :: others ++ more) := by
          rw [hmore, List.takeWhile_append_dropWhile]
        obtain ⟨hstart, hspan, -⟩ := start_of_ofRange hx rfl hsound
        refine flush_of_from? (hrest.trans (congrArg some hsplit))
          (isBlank_takeWhile_isSkipped rest) hc hsound hstart ?_ rfl
        rw [hstart, hspan, Text.size_cons]
        dsimp only
        omega
      · cases hresult
  · cases hresult

/-- A quoted literal starts with a quote mark, or with the marker of a raw one, and both `IsVisible`. -/
theorem visible_of_rawMarker {literal body : Text} {raw : Bool} {mark : Char}
    (h : rawMarker literal = (raw, mark :: body)) (hmark : mark = '"' ∨ mark = '\'') :
    ∃ c more, literal = c :: more ∧ Unicode.IsVisible c := by
  unfold rawMarker at h
  split at h
  · exact ⟨'r', _, rfl, rfl⟩
  · obtain ⟨-, rfl⟩ := Prod.mk.inj h
    refine ⟨mark, body, rfl, ?_⟩
    rcases hmark with rfl | rfl <;> rfl

theorem flush_string : Flush string := by
  intro t pos e hpos hresult
  have hsound := (sound_of_boundary (sound_string t pos _ hresult) hpos).2
  unfold string at hresult
  split at hresult
  · cases hresult
  next rest hrest =>
    dsimp only at hresult
    rcases hraw : rawMarker (rest.dropWhile isSkipped) with ⟨raw, quoted⟩
    rw [hraw] at hresult
    dsimp only at hresult
    split at hresult
    · cases hresult
    next mark body =>
      split at hresult
      next hmark =>
        split at hresult
        · cases hresult
        next length _ =>
          obtain ⟨x, hx, hresult⟩ := Traced.result_bind_eq_ok_iff.mp hresult
          obtain rfl := Option.some.inj (Except.ok.inj hresult)
          obtain ⟨c, more, hmore, hc⟩ := visible_of_rawMarker hraw hmark
          have hsplit : rest = rest.takeWhile isSkipped ++ c :: more := by
            rw [← hmore, List.takeWhile_append_dropWhile]
          obtain ⟨hstart, hspan, -⟩ := start_of_ofRange hx rfl hsound
          refine flush_of_from? (hrest.trans (congrArg some hsplit))
            (isBlank_takeWhile_isSkipped rest) hc hsound hstart ?_ rfl
          rw [hstart, hspan]
          dsimp only
          split <;> omega
      · cases hresult

/-! ## Tokens given by expressions -/

/-- What `scan?` finds of an expression `behindBlanks` that `Opens` with visible characters: the first
    group starts right behind the white space. -/
theorem exists_of_scan? {p : Regex.Program} {m : Regex.Matcher} {b : Bounds}
    (hp : p.matcher = .behindBlanks m) (hm : m.Opens Unicode.IsVisible)
    (h : p.scan? t pos = some b) :
    ∃ (blanks : Text) (c : Char) (more : Text), t.from? pos = some (blanks ++ c :: more) ∧
      blanks.isBlank = true ∧ Unicode.IsVisible c ∧ b.start = pos + blanks.size ∧
      b.start < b.stop := by
  unfold Regex.Program.scan? at h
  split at h
  · obtain ⟨rest, hrest, h⟩ := Option.bind_eq_some_iff.mp h
    obtain ⟨found, hfound, rfl⟩ := Option.map_eq_some_iff.mp h
    rw [Regex.Program.find?_eq, hp] at hfound
    obtain ⟨blanks, c, more, s, rfl, hblanks, hc, -, hgroup, hstart, hlt⟩ :=
      Regex.Matcher.exists_of_find?_behindBlanks hm hfound
    refine ⟨blanks, c, more, hrest, List.all_eq_true.mpr hblanks, hc, ?_, ?_⟩
    · show pos + ((found.group? 1).getD found.span).start = _
      rw [hgroup, Option.getD_some, hstart]
    · show pos + ((found.group? 1).getD found.span).start
        < pos + ((found.group? 1).getD found.span).stop
      rw [hgroup, Option.getD_some]
      exact Nat.add_lt_add_left hlt pos
  · cases h

/-- What such a program finds starts with the visible character, behind the blanks that it skips. -/
theorem flush_of_scan? {p : Regex.Program} {m : Regex.Matcher} {b : Bounds} {x : Extent}
    {e : Element} (hp : p.matcher = .behindBlanks m) (hm : m.Opens Unicode.IsVisible)
    (h : p.scan? t pos = some b) (hx : (Extent.ofRange t b.start b.stop b.span).result = .ok x)
    (hextent : e.extent = x) (hparts : e.parts = []) (he : e.Sound t) : e.Flush t pos := by
  obtain ⟨blanks, c, more, hrest, hblanks, hc, hstart, hlt⟩ := exists_of_scan? hp hm h
  obtain ⟨hstart', hspan, hle⟩ := start_of_ofRange hx hextent he
  refine flush_of_from? hrest hblanks hc he (hstart'.trans hstart) ?_ hparts
  rw [hstart', hspan]
  exact Nat.lt_of_lt_of_le hlt hle

/-- A recogniser of one program is `Flush` if the program skips blanks and its group starts with a visible
    character. -/
theorem flush_ofProgram {p : Regex.Program} {m : Regex.Matcher} {kind : Extent → Element}
    (hp : p.matcher = .behindBlanks m) (hm : m.Opens Unicode.IsVisible)
    (hextent : ∀ x, (kind x).extent = x) (hparts : ∀ x, (kind x).parts = []) :
    (ofProgram p kind).Flush := by
  intro t pos e hpos hresult
  have hsound :=
    (sound_of_boundary (sound_ofProgram p hextent hparts t pos _ hresult) hpos).2
  unfold ofProgram at hresult
  split at hresult
  · cases hresult
  next b hb =>
    obtain ⟨x, hx, hresult⟩ := Traced.result_bind_eq_ok_iff.mp hresult
    obtain rfl := Option.some.inj (Except.ok.inj hresult)
    exact flush_of_scan? hp hm hb hx (hextent x) (hparts x) hsound

open Regex (Matcher)
open Regex.Matcher (behindBlanks looped)

theorem isVisible_of_wordStart {c : Char} (h : Token.wordStart.contains c = true) :
    Unicode.IsVisible c :=
  Token.not_isWhiteSpace_of_wordStart h

/-- Names `Begin` their first group with a letter or an underscore, so they `Opens` with visible
    characters. -/
theorem opens_name {m : Matcher} (h : m.Begins Unicode.IsVisible) :
    Matcher.Opens Unicode.IsVisible (.seq (.look (.word .boundary false))
      (.seq (.capture 1 m) (.look (.word .boundary false)))) :=
  ((Matcher.opens_capture h).seq (by simp [Matcher.indices])).look _

theorem begins_identifierFrom (label : Nat) :
    (Token.identifierFrom label).Begins Unicode.IsVisible :=
  (Matcher.begins_set fun _ => isVisible_of_wordStart).seq _

theorem flush_word : Flush word :=
  flush_ofProgram (m := .seq (.look (.word .boundary false))
    (.seq (.capture 1 (Token.identifierFrom 2)) (.look (.word .boundary false)))) rfl
    (opens_name (begins_identifierFrom 2)) (fun _ => rfl) (fun _ => rfl)

theorem flush_dottedWord : Flush dottedWord :=
  flush_ofProgram (m := .seq (.look (.word .boundary false))
    (.seq (.capture 1 (Token.dottedNameFrom 2)) (.look (.word .boundary false)))) rfl
    (opens_name ((begins_identifierFrom 2).seq _)) (fun _ => rfl) (fun _ => rfl)

theorem isVisible_of_char {c d : Char} (hc : Unicode.IsVisible c)
    (h : (Regex.CharSet.char c).contains d = true) : Unicode.IsVisible d := by
  obtain rfl := Regex.CharSet.contains_char_iff.mp h
  exact hc

theorem isVisible_of_isDecimalDigit {c : Char} (h : Unicode.isDecimalDigit c = true) :
    Unicode.IsVisible c := by
  cases hc : Unicode.isWhiteSpace c with
  | false => exact hc
  | true =>
      rw [Unicode.not_isDecimalDigit_of_isWhiteSpace hc] at h
      cases h

theorem begins_char {c : Char} (hc : Unicode.IsVisible c) :
    (Matcher.set (.char c)).Begins Unicode.IsVisible :=
  Matcher.begins_set fun _ => isVisible_of_char hc

theorem flush_bool : Flush bool := by
  intro t pos e hpos hresult
  have hsound := (sound_of_boundary (sound_bool t pos _ hresult) hpos).2
  unfold bool at hresult
  split at hresult
  · cases hresult
  next b hb =>
    obtain ⟨x, hx, hresult⟩ := Traced.result_bind_eq_ok_iff.mp hresult
    obtain rfl := Option.some.inj (Except.ok.inj hresult)
    have hopens : Matcher.Opens Unicode.IsVisible (.capture 1 (.alt 2
        (.seq (.set (.char 't')) (.seq (.set (.char 'r')) (.seq (.set (.char 'u')) (.set (.char 'e')))))
        (.seq (.set (.char 'f')) (.seq (.set (.char 'a')) (.seq (.set (.char 'l'))
          (.seq (.set (.char 's')) (.set (.char 'e')))))))) :=
      Matcher.opens_capture (((begins_char (c := 't') rfl).seq _).alt
        ((begins_char (c := 'f') rfl).seq _) 2)
    exact flush_of_scan? rfl hopens hb hx rfl rfl hsound

/-- The matcher of `numberProgram` has the form of `behindBlanks`. Its first group begins with a minus or
    a digit. -/
theorem exists_opens_number : ∃ m, Token.numberProgram.matcher = behindBlanks m ∧
    m.Opens Unicode.IsVisible := by
  have hdigits : Matcher.Begins Unicode.IsVisible
      (.plus 3 true (.set (.property .decimalDigit))) :=
    (Matcher.begins_set (s := .property .decimalDigit) fun _ => isVisible_of_isDecimalDigit).plus
      3 true
  have hminus : Matcher.Begins Unicode.IsVisible (.seq (.set (.char '-')) .empty) :=
    (begins_char (c := '-') rfl).seq _
  refine ⟨_, rfl, (Matcher.opens_capture (hminus.opt hdigits 2)).seq ?_⟩
  simp [Matcher.indices]

theorem flush_number : Flush number := by
  intro t pos e hpos hresult
  have hsound := (sound_of_boundary (sound_number t pos _ hresult) hpos).2
  obtain ⟨m, hmatcher, hm⟩ := exists_opens_number
  unfold number at hresult
  split at hresult
  · split at hresult
    · cases hresult
    next rest hrest =>
      split at hresult
      · cases hresult
      next found hfound =>
        split at hresult
        · cases hresult
        next integer hinteger =>
          obtain ⟨x, hx, hresult⟩ := Traced.result_bind_eq_ok_iff.mp hresult
          obtain rfl := Option.some.inj (Except.ok.inj hresult)
          have hspan := Regex.Program.within_of_group? hfound hinteger
          rw [Regex.Program.find?_eq, hmatcher] at hfound
          obtain ⟨blanks, c, more, s, rfl, hblanks, hc, -, hgroup, hstart, hlt⟩ :=
            Regex.Matcher.exists_of_find?_behindBlanks hm hfound
          obtain rfl := Option.some.inj (hinteger.symm.trans hgroup)
          obtain ⟨hstart', hspan', -⟩ := start_of_ofRange hx rfl hsound
          refine flush_of_from? hrest (List.all_eq_true.mpr hblanks) hc hsound
            (hstart'.trans (by rw [hstart])) ?_ rfl
          rw [hstart', hspan']
          exact Nat.add_lt_add_left (Nat.lt_of_lt_of_le hlt hspan.stop_le) pos
  · cases hresult

/-! ## Combinators -/

/-- A sequence starts where its first part does, so the others need not be `Flush`. -/
theorem flush_join {first : Recognizer} {rest : List Recognizer} (h : first.Flush)
    (hparts : ∀ p ∈ first :: rest, Sound p) : (join (first :: rest)).Flush := by
  intro t pos e hpos hresult
  have hsound := (sound_of_boundary (sound_join hparts t pos _ hresult) hpos).2
  obtain ⟨run, hrun, hresult⟩ := Traced.result_bind_eq_ok_iff.mp hresult
  rcases run with _ | ⟨items, stop⟩
  · cases hresult
  obtain ⟨j, hj, hresult⟩ := Traced.result_bind_eq_ok_iff.mp hresult
  obtain rfl := Option.some.inj (Except.ok.inj hresult)
  obtain ⟨x, hx, rfl⟩ := exists_of_ofJoin hj
  have hrow := row_of_runAll hparts hpos hrun
  obtain ⟨head, others, rfl, hhead, -⟩ := exists_of_runAll_cons hrun
  obtain ⟨last, hlast⟩ : ∃ last, (head :: others).getLast? = some last :=
    Option.isSome_iff_exists.mp (by simp)
  rw [Extent.ofItems, hlast] at hx
  obtain ⟨hstart, hspan, -⟩ := start_of_ofRange hx rfl hsound
  refine (h t pos head hpos hhead).widen hstart ?_ (hrow.sound head (List.mem_cons_self ..))
    hsound ?_
  · rw [hspan]
    cases hrow with
    | cons _ _ hrest => exact hrest.le
  · rintro x part rest ⟨⟩
    exact hstart.symm

theorem flush_choice {parts : List Recognizer} (h : ∀ p ∈ parts, Flush p) :
    (choice parts).Flush := by
  intro t pos e hpos hresult
  induction parts with
  | nil => cases hresult
  | cons p parts ih =>
      obtain ⟨found, hfound, hresult⟩ := Traced.result_bind_eq_ok_iff.mp hresult
      cases found with
      | none => exact ih (fun q hq => h q (List.mem_cons_of_mem _ hq)) hresult
      | some e' =>
          obtain rfl := Option.some.inj (Except.ok.inj hresult)
          exact h p (List.mem_cons_self ..) t pos _ hpos hfound

/-- Nothing is taken up in front of the first slot that `runSlots` fills, so the element in it is `Flush`
    at the position. -/
theorem flush_of_runSlots {parts : List Recognizer} {slots : List (Option Element)} {stop : Nat}
    {first : Element} (h : ∀ p ∈ parts, Flush p) (hpos : t.isBoundary pos = true)
    (hrun : (runSlots t parts pos).result = .ok (slots, stop))
    (hfirst : (slots.filterMap id).head? = some first) : first.Flush t pos := by
  induction parts generalizing slots with
  | nil =>
      obtain ⟨rfl, rfl⟩ := Prod.mk.inj (Except.ok.inj hrun)
      cases hfirst
  | cons p parts ih =>
      obtain ⟨slot, rest, rfl, hslot, hrest⟩ := exists_of_runSlots_cons hrun
      cases slot with
      | none => exact ih (fun q hq => h q (List.mem_cons_of_mem _ hq)) hrest hfirst
      | some e =>
          obtain rfl := Option.some.inj hfirst
          exact h p (List.mem_cons_self ..) t pos _ hpos hslot

/-- Any part of a group may be the first that answers. -/
theorem flush_group {parts : List Recognizer} (h : ∀ p ∈ parts, Flush p)
    (hparts : ∀ p ∈ parts, Sound p) : (group parts).Flush := by
  intro t pos e hpos hresult
  have hsound := (sound_of_boundary (sound_group hparts t pos _ hresult) hpos).2
  obtain ⟨⟨slots, stop⟩, hrun, hresult⟩ := Traced.result_bind_eq_ok_iff.mp hresult
  dsimp only at hresult
  split at hresult
  next first last hfirst hlast =>
    obtain ⟨x, hx, hresult⟩ := Traced.result_bind_eq_ok_iff.mp hresult
    obtain rfl := Option.some.inj (Except.ok.inj hresult)
    obtain ⟨hstart, hspan, -⟩ := start_of_ofRange hx rfl hsound
    have hrow := row_of_runSlots hparts hpos hrun
    refine (flush_of_runSlots h hpos hrun hfirst).widen hstart ?_
      (hrow.sound first (List.mem_of_head? hfirst)) hsound (by rintro x part rest ⟨⟩)
    rw [hspan]
    obtain ⟨others, hitems⟩ := List.head?_eq_some_iff.mp hfirst
    rw [hitems] at hrow
    cases hrow with
    | cons _ _ hrest => exact hrest.le
  · cases hresult

/-! ## Lists -/

/-- The first item of `runItems` was read first, where the list begins. -/
theorem head_of_runItems {item separator : Recognizer} {bound : Nat} {run run' : ItemRun}
    {first : Element} (h : (runItems t item separator bound run).result = .ok run')
    (hfirst : run'.items.head? = some first) :
    run.items.head? = some first ∨
      run.items = [] ∧ (item t run.last.taken).result = .ok (some first) := by
  induction bound generalizing run with
  | zero => cases h
  | succ bound ih =>
      obtain ⟨found, hfound, h⟩ := Traced.result_bind_eq_ok_iff.mp h
      rcases found with _ | e
      · obtain rfl := Except.ok.inj h
        exact .inl hfirst
      -- the item just read is the first one only if there was none before
      have hnext (hhead : (run.addItem e).items.head? = some first) :
          run.items.head? = some first ∨
            run.items = [] ∧ (item t run.last.taken).result = .ok (some first) := by
        have hhead : (run.items ++ [e]).head? = some first := hhead
        cases hitems : run.items with
        | nil =>
            rw [hitems] at hhead
            obtain rfl := Option.some.inj hhead
            exact .inr ⟨rfl, hfound⟩
        | cons head rest =>
            rw [hitems] at hhead
            exact .inl hhead
      obtain ⟨found, -, h⟩ := Traced.result_bind_eq_ok_iff.mp h
      rcases found with _ | s
      · obtain rfl := Except.ok.inj h
        exact hnext hfirst
      dsimp only at h
      split at h
      · obtain rfl := Except.ok.inj h
        exact hnext hfirst
      · rcases ih h with hhead | ⟨hnil, -⟩
        · exact hnext hhead
        · exact absurd hnil (by simp [ItemRun.addSeparator, ItemRun.addItem])

/-- A `list` is `Flush` if its opening bracket is or, without one, its item. `head_of_runItems` says that
    no item stands in front of the first one. -/
theorem flush_list {shape : ListShape} (hitem : Sound shape.item)
    (hseparator : Sound shape.separator) (hopening : ∀ p ∈ shape.opening, Sound p)
    (hclosing : ∀ p ∈ shape.closing, Sound p)
    (h : (shape.opening = none ∧ shape.item.Flush) ∨ ∃ p, shape.opening = some p ∧ p.Flush) :
    (list shape).Flush := by
  intro t pos e hpos hresult
  have hanswer := sound_list hitem hseparator hopening hclosing t pos _ hresult
  have hsound := (sound_of_boundary hanswer hpos).2
  obtain ⟨opened, hopen, hresult⟩ := Traced.result_bind_eq_ok_iff.mp hresult
  rcases opened with _ | ⟨start?, begin⟩
  · cases hresult
  obtain ⟨run, hrun, hresult⟩ := Traced.result_bind_eq_ok_iff.mp hresult
  split at hresult
  · cases hresult
  obtain ⟨closed, hclose, hresult⟩ := Traced.result_bind_eq_ok_iff.mp hresult
  rcases closed with _ | ⟨run', stop⟩
  · cases hresult
  dsimp only at hresult
  split at hresult
  · cases hresult
  next start hstart =>
    obtain ⟨x, hx, hresult⟩ := Traced.result_bind_eq_ok_iff.mp hresult
    obtain rfl := Option.some.inj (Except.ok.inj hresult)
    obtain ⟨hbegin, hspan, -⟩ := start_of_ofRange hx rfl hsound
    obtain ⟨-, hcut, -⟩ := le_of_open? hopening hpos hopen
    have hlined := lined_runItems hitem hseparator (ItemRun.lined_start hcut) hrun
    obtain ⟨hsame, -, htaken⟩ := after_of_close? hclosing hlined hclose
    rcases exists_of_open? hopen with ⟨hnone, rfl, rfl⟩ | ⟨p, o, hp, ho, rfl, rfl⟩
    · have hflush : shape.item.Flush := by
        rcases h with ⟨-, hflush⟩ | ⟨p, hp, -⟩
        · exact hflush
        · rw [hnone] at hp
          cases hp
      obtain ⟨first, hfirst, hfirstStart⟩ := Option.map_eq_some_iff.mp hstart
      rw [hsame] at hfirst
      rcases head_of_runItems hrun hfirst with hhead | ⟨-, hread⟩
      · cases hhead
      have hrow := hlined.row
      refine (hflush t _ first hpos hread).widen (hbegin.trans hfirstStart.symm) ?_
        (hrow.sound first (List.mem_of_head? hfirst)) hsound (by rintro x part rest ⟨⟩)
      rw [hspan]
      obtain ⟨others, hitems⟩ := List.head?_eq_some_iff.mp hfirst
      rw [hitems] at hrow
      cases hrow with
      | cons _ _ hrest => exact Nat.le_trans hrest.le htaken
    · have hflush : p.Flush := by
        rcases h with ⟨hnone, -⟩ | ⟨q, hq, hflush⟩
        · rw [hnone] at hp
          cases hp
        · obtain rfl := Option.some.inj (hq.symm.trans hp)
          exact hflush
      obtain rfl : o.start = start := Option.some.inj hstart
      refine (hflush t pos o hpos ho).widen hbegin ?_
        (sound_of_boundary (hopening p hp t pos _ ho) hpos).2 hsound (by rintro x part rest ⟨⟩)
      rw [hspan]
      exact Nat.le_trans hlined.row.le htaken

/-! ## Type names -/

/-- `asTypeName` keeps the start and the span of what it is made from, hence `Flush`. -/
theorem start_of_asTypeName {e e' : Element} (h : (asTypeName t e).result = .ok e')
    (hflush : e.Flush t pos) (he' : e'.Sound t) :
    e'.start = e.start ∧ e'.span = e.span ∧ ∀ x items, e' ≠ .join x items := by
  rcases exists_of_asTypeName h with ⟨name, hname, h⟩ |
    ⟨x, first, name, arguments, items, trailing, rfl, hname, h⟩
  · obtain ⟨rfl, -⟩ := extent_of_name hname
    obtain ⟨y, hy, h⟩ := Traced.result_bind_eq_ok_iff.mp h
    obtain rfl := Except.ok.inj h
    obtain ⟨hstart, hspan, -⟩ := start_of_ofRange hy rfl he'
    exact ⟨hstart, hspan, by simp⟩
  · obtain ⟨rfl, -⟩ := extent_of_name hname
    obtain ⟨y, hy, h⟩ := Traced.result_bind_eq_ok_iff.mp h
    obtain rfl := Except.ok.inj h
    obtain ⟨hstart, hspan, -⟩ := start_of_ofRange hy rfl he'
    exact ⟨hstart.trans (hflush.head x first _ rfl), hspan, by simp⟩

/-- A type name starts where its name does. -/
theorem flush_typeName {name argument : Recognizer} (h : name.Flush) (hname : Sound name)
    (hargument : Sound argument) : (typeName name argument).Flush := by
  intro t pos e' hpos hresult
  have hsound := (sound_of_boundary (sound_typeName hname hargument t pos _ hresult) hpos).2
  obtain ⟨found, hfound, hresult⟩ := Traced.result_bind_eq_ok_iff.mp hresult
  rcases found with _ | e
  · cases hresult
  obtain ⟨made, hmade, hresult⟩ := Traced.result_bind_eq_ok_iff.mp hresult
  obtain rfl := Option.some.inj (Except.ok.inj hresult)
  have hjoin : (join [name, arguments argument]).Flush := by
    apply flush_join h
    rintro p (_ | ⟨_, _ | ⟨_, ⟨⟩⟩⟩)
    · exact hname
    · exact sound_arguments hargument
  have hsource : (choice [join [name, arguments argument], name]).Flush := by
    apply flush_choice
    rintro p (_ | ⟨_, _ | ⟨_, ⟨⟩⟩⟩)
    · exact hjoin
    · exact h
  have he := (sound_of_boundary (sound_nameOrGeneric hname hargument t pos _ hfound) hpos).2
  have hflush := hsource t pos e hpos hfound
  obtain ⟨hstart, hspan, hjoin⟩ := start_of_asTypeName hmade hflush hsound
  exact hflush.widen hstart (Nat.le_of_eq (by rw [hspan])) he hsound
    fun x part rest heq => absurd heq (hjoin x _)

end Recognizer

end Graft
