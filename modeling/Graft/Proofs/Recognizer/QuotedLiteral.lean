import Mathlib.Data.List.TakeWhile
import Graft.Proofs.Recognizer.QuotedBytes
import Graft.Proofs.Recognizer.Token

/-!
# `Graft.Proofs.Recognizer.QuotedLiteral` — literals between quote marks

What a quoted literal looks like is said without the recogniser: blanks, perhaps a marker, a quote mark, a
body, the mark again, and whatever comes behind it (`Token.QuotedLiteral`). A text begins with one in at
most one way (`QuotedLiteral.eq_of_text`). The recogniser answers where the text ahead begins with one, and
its element has the parts of the literal (`string_eq`); it has no match where there is none
(`string_eq_none`). All of this is said in characters, and holds of the bytes as well (`bytewiseString_eq`).
-/

namespace Graft

namespace Token

open Recognizer

/-- A quoted literal and what comes behind it. -/
structure QuotedLiteral where
  blanks : Text
  raw : Bool
  mark : Char
  body : Text
  rest : Text
  blanks_skipped : ∀ c ∈ blanks, isSkipped c = true
  mark_quote : mark = '"' ∨ mark = '\''
  body_quoted : QuotedBody mark body

namespace QuotedLiteral

variable (l : QuotedLiteral)

/-- The literal itself, from its marker to its closing mark. -/
def content : Text :=
  marker l.raw ++ l.mark :: (l.body ++ [l.mark])

/-- The text that begins with the literal. -/
def text : Text :=
  l.blanks ++ (l.content ++ l.rest)

/-- Where the body lies in a text that has the literal ahead of position `pos`. -/
def inner (pos : Nat) : Span :=
  let start := pos + l.blanks.size + (marker l.raw).size + 1
  ⟨start, start + l.body.size⟩

/-- The literal as an element of a text that has it ahead of position `pos`. -/
def element (pos : Nat) : Element :=
  .string (.token pos l.blanks l.content) (l.inner pos) l.raw

theorem mark_ne_backslash : l.mark ≠ '\\' := by
  rcases l.mark_quote with h | h <;> rw [h] <;> decide

theorem mark_ne_r : l.mark ≠ 'r' := by
  rcases l.mark_quote with h | h <;> rw [h] <;> decide

theorem utf8Size_mark : l.mark.utf8Size = 1 := by
  rcases l.mark_quote with h | h <;> rw [h] <;> rfl

theorem size_content : l.content.size = (marker l.raw).size + 1 + l.body.size + 1 := by
  simp [content, l.utf8Size_mark]
  omega

/-- The `content` of a literal does not begin with a blank, so that all the blanks ahead of it are in
    front of it. -/
theorem head_content {more : Text} {c : Char} (h : (l.content ++ more).head? = some c) :
    isSkipped c = false := by
  cases hraw : l.raw with
  | true =>
      rw [content, hraw] at h
      obtain rfl : 'r' = c := Option.some.inj h
      decide
  | false =>
      rw [content, hraw] at h
      obtain rfl : l.mark = c := Option.some.inj h
      rcases l.mark_quote with hmark | hmark <;> rw [hmark] <;> decide

theorem takeWhile_text : l.text.takeWhile isSkipped = l.blanks ∧
    l.text.dropWhile isSkipped = l.content ++ l.rest :=
  takeWhile_isSkipped l.blanks_skipped fun _ => l.head_content

theorem rawMarker_content :
    rawMarker (l.content ++ l.rest) = (l.raw, l.mark :: (l.body ++ l.mark :: l.rest)) := by
  have hmarker := @rawMarker_marker l.mark (l.body ++ l.mark :: l.rest) l.raw l.mark_ne_r
  simpa [content] using hmarker

variable {l}

/-- A `QuotedLiteral` can be told from its text: `closingQuote?` finds where its body ends. -/
theorem eq_of_text {l' : QuotedLiteral} (h : l.text = l'.text) : l = l' := by
  have hblanks : l.blanks = l'.blanks := by
    rw [← l.takeWhile_text.1, h, l'.takeWhile_text.1]
  have hcontent : l.content ++ l.rest = l'.content ++ l'.rest := by
    rw [← l.takeWhile_text.2, h, l'.takeWhile_text.2]
  have hmarked := congrArg rawMarker hcontent
  rw [l.rawMarker_content, l'.rawMarker_content] at hmarked
  obtain ⟨hraw, hquoted⟩ := Prod.mk.inj hmarked
  obtain ⟨hmark, hbody⟩ := List.cons.inj hquoted
  -- both bodies end where the search for the closing mark does
  have hsize := closingQuote?_of_quotedBody l.mark_ne_backslash l.body_quoted l.rest
  rw [hbody, hmark, closingQuote?_of_quotedBody l'.mark_ne_backslash l'.body_quoted] at hsize
  obtain ⟨hbodies, hrests⟩ := Text.append_inj_of_size hbody (Option.some.inj hsize).symm
  obtain ⟨-, hrest⟩ := List.cons.inj hrests
  cases l
  cases l'
  subst hblanks hraw hmark hbodies hrest
  rfl

variable {t rest : Text} {pos : Nat}

/-- The body of a literal stands where `inner` says. -/
theorem slice?_inner (h : t.from? pos = some l.text) :
    t.slice? (l.inner pos).start (l.inner pos).stop = some l.body := by
  obtain ⟨s, rfl, rfl⟩ := Text.exists_of_from? h
  apply Text.slice?_eq_some_iff.mpr
  refine ⟨s ++ (l.blanks ++ (marker l.raw ++ [l.mark])), l.mark :: l.rest, ?_, ?_, rfl⟩
  · simp [text, content]
  · simp [inner, l.utf8Size_mark, Nat.add_assoc]

/-- `string` reads a `QuotedLiteral` that is ahead, with all its positions. -/
theorem string_eq (h : t.from? pos = some l.text) : string t pos = pure (some (l.element pos)) := by
  obtain ⟨htake, hdrop⟩ := l.takeWhile_text
  have hclosing := closingQuote?_of_quotedBody l.mark_ne_backslash l.body_quoted l.rest
  have hfits := fits_of_skipped l.blanks l.content l.rest h rfl
  have hwidth : (if l.raw = true then 2 else 1) = (marker l.raw).size + 1 := by
    rw [size_marker]
    split <;> rfl
  have hstop : pos + l.blanks.size + ((marker l.raw).size + 1) + l.body.size + 1
      = pos + l.blanks.size + l.content.size := by
    rw [l.size_content]
    omega
  simp only [string, h, htake, hdrop, l.rawMarker_content, if_pos l.mark_quote, hclosing, hwidth, hstop,
    Extent.ofRange_of_fits hfits, pure_bind]
  rfl

end QuotedLiteral

end Token

namespace Recognizer

open Token

variable {t rest : Text} {pos : Nat}

/-- `string` has no answer without a `QuotedLiteral` ahead, since `exists_of_closingQuote?` would make
    one. -/
theorem string_eq_none (h : t.from? pos = some rest) (hnone : ¬ ∃ l : QuotedLiteral, rest = l.text) :
    string t pos = pure none := by
  unfold string
  rw [h]
  dsimp only
  rcases hraw : rawMarker (rest.dropWhile isSkipped) with ⟨raw, quoted⟩
  dsimp only
  cases quoted with
  | nil => rfl
  | cons mark text =>
      dsimp only
      by_cases hmark : mark = '"' ∨ mark = '\''
      · rw [if_pos hmark]
        cases hclosing : closingQuote? mark false text with
        | none => rfl
        | some n =>
            have hbackslash : mark ≠ '\\' := by
              rcases hmark with rfl | rfl <;> decide
            obtain ⟨body, more, rfl, -, hbody⟩ := exists_of_closingQuote? hbackslash hclosing
            refine absurd ?_ hnone
            refine ⟨⟨rest.takeWhile isSkipped, raw, mark, body, more,
              fun c hc => List.mem_takeWhile_imp hc, hmark, hbody⟩, ?_⟩
            calc
              rest = rest.takeWhile isSkipped ++ rest.dropWhile isSkipped :=
                List.takeWhile_append_dropWhile.symm
              _ = _ := by
                rw [eq_of_rawMarker hraw]
                simp [QuotedLiteral.text, QuotedLiteral.content]
      · rw [if_neg hmark]

/-- At a place where the text can be cut, a quoted literal is recognised exactly where the text ahead is
    blanks, perhaps an `r`, a quote mark, units other than the mark with a backslash taking in whatever comes
    behind it, the same mark, and anything at all. It is so in one way at most, the blanks are all there
    are, and the element tells this way: its content is the literal, its span begins with the blanks, what it
    has as its inside is the body, and it is raw if the `r` is there. A text written with a backslash in
    front of each mark and backslash is read as the body that it is written as. The reading that goes byte by
    byte answers the same. -/
theorem string_quotedLiteral (h : t.from? pos = some rest) :
    bytewiseString t pos = string t pos ∧
      ((∃ e, (string t pos).result = .ok (some e)) ↔ ∃ l : QuotedLiteral, rest = l.text) ∧
      ((¬ ∃ l : QuotedLiteral, rest = l.text) → string t pos = pure none) ∧
      (∀ l l' : QuotedLiteral, rest = l.text → rest = l'.text → l = l') ∧
      (∀ l : QuotedLiteral, rest = l.text → rest.takeWhile isSkipped = l.blanks ∧
        string t pos = pure (some (l.element pos)) ∧
        (l.element pos).content? t = some l.content ∧
        t.slice? (l.inner pos).start (l.inner pos).stop = some l.body) ∧
      ∀ s mark after, mark = '"' ∨ mark = '\'' →
        rest = mark :: (escapeFor mark s ++ mark :: after) →
        ∃ extent inner, string t pos = pure (some (.string extent inner false)) ∧
          t.slice? inner.start inner.stop = some (escapeFor mark s) := by
  refine ⟨by rw [bytewiseString_eq], ⟨?_, ?_⟩, string_eq_none h, ?_, ?_, ?_⟩
  · rintro ⟨e, he⟩
    by_contra hnone
    rw [string_eq_none h hnone] at he
    cases he
  · rintro ⟨l, rfl⟩
    exact ⟨l.element pos, by rw [QuotedLiteral.string_eq h]; rfl⟩
  · intro l l' hl hl'
    exact QuotedLiteral.eq_of_text (hl.symm.trans hl')
  · rintro l rfl
    exact ⟨l.takeWhile_text.1, QuotedLiteral.string_eq h, Extent.content?_token h,
      QuotedLiteral.slice?_inner h⟩
  · rintro s mark after hmark rfl
    let l : QuotedLiteral := ⟨[], false, mark, escapeFor mark s, after, by simp, hmark,
      quotedBody_escapeFor mark s⟩
    have htext : mark :: (escapeFor mark s ++ mark :: after) = l.text := by
      simp [l, QuotedLiteral.text, QuotedLiteral.content, marker]
    rw [htext] at h
    exact ⟨_, _, QuotedLiteral.string_eq h, QuotedLiteral.slice?_inner h⟩

/-- `string_quotedLiteral` for a raw literal behind a blank, with an accented letter behind a backslash in
    its body, an escaped mark, and the other mark. -/
theorem string_quotedLiteral_escapes :
    Text.from? ['x', ' ', 'r', '"', '\\', 'é', '\'', '\\', '"', '"', ';'] 1
        = some [' ', 'r', '"', '\\', 'é', '\'', '\\', '"', '"', ';'] ∧
      (string ['x', ' ', 'r', '"', '\\', 'é', '\'', '\\', '"', '"', ';'] 1).result
        = .ok (some (.string ⟨some ⟨2, 11, ⟨1, 11⟩⟩⟩ ⟨4, 10⟩ true)) ∧
      Text.slice? ['x', ' ', 'r', '"', '\\', 'é', '\'', '\\', '"', '"', ';'] 4 10
        = some ['\\', 'é', '\'', '\\', '"'] := by
  have hfrom : Text.from? ['x', ' ', 'r', '"', '\\', 'é', '\'', '\\', '"', '"', ';'] 1
      = some [' ', 'r', '"', '\\', 'é', '\'', '\\', '"', '"', ';'] := by decide
  let l : QuotedLiteral := ⟨[' '], true, '"', ['\\', 'é', '\'', '\\', '"'], [';'], by simp [isSkipped],
    .inl rfl, .escaped (.plain (by decide) (by decide) (.escaped .nil))⟩
  obtain ⟨-, -, -, -, hparts, -⟩ := string_quotedLiteral hfrom
  obtain ⟨-, hstring, -, hinner⟩ := hparts l rfl
  exact ⟨hfrom, by rw [hstring]; rfl, hinner⟩

end Recognizer

end Graft
