import Graft.Recognizer

/-!
# `Graft.Proofs.Recognizer.QuotedBody` — what stands between quote marks

Between two quote marks there are units, one after the other: a character other than the mark and the
backslash, or a backslash and whatever character comes next (`Token.QuotedBody`). The search for the closing
mark goes character by character and remembers whether a backslash has just been read. It finds the mark
behind a body made of such units (`closingQuote?_of_quotedBody`), and nothing else
(`exists_of_closingQuote?`).

The search may start in the middle of a unit. What it then finds is the rest of a body that begins with a
backslash, and this is the statement that the induction on the text carries.
-/

namespace Graft

namespace Token

/-- A text that can stand between two of the given quote marks: no mark and no backslash in it but behind a
    backslash, and no backslash at its end that nothing comes behind. -/
inductive QuotedBody (mark : Char) : Text → Prop
  | nil : QuotedBody mark []
  | plain {c : Char} {body : Text} (hmark : c ≠ mark) (hbackslash : c ≠ '\\')
      (hbody : QuotedBody mark body) : QuotedBody mark (c :: body)
  | escaped {c : Char} {body : Text} (hbody : QuotedBody mark body) :
      QuotedBody mark ('\\' :: c :: body)

/-- A text written between two quote marks: with a backslash in front of each mark and backslash. -/
def escapeFor (mark : Char) (s : Text) : Text :=
  s.flatMap fun c => if c = mark ∨ c = '\\' then ['\\', c] else [c]

/-- `escapeFor` makes a `QuotedBody` of any text, so every text can be quoted. -/
theorem quotedBody_escapeFor (mark : Char) (s : Text) : QuotedBody mark (escapeFor mark s) := by
  induction s with
  | nil => exact .nil
  | cons c cs ih =>
      rw [escapeFor, List.flatMap_cons]
      by_cases hc : c = mark ∨ c = '\\'
      · rw [if_pos hc]
        exact .escaped ih
      · rw [if_neg hc]
        obtain ⟨hmark, hbackslash⟩ := not_or.mp hc
        exact .plain hmark hbackslash ih

/-- The marker of a raw literal, if it has one. -/
def marker (raw : Bool) : Text :=
  if raw then ['r'] else []

end Token

namespace Recognizer

open Token

variable {mark c : Char} {body rest : Text} {n : Nat}

/-! ## One character of the search -/

theorem closingQuote?_pending :
    closingQuote? mark true (c :: rest) = (closingQuote? mark false rest).map (c.utf8Size + ·) := rfl

theorem closingQuote?_backslash : closingQuote? mark false ('\\' :: rest)
    = (closingQuote? mark true rest).map (Char.utf8Size '\\' + ·) := rfl

theorem closingQuote?_mark (hmark : mark ≠ '\\') : closingQuote? mark false (mark :: rest) = some 0 := by
  simp [closingQuote?, hmark]

theorem closingQuote?_plain (hmark : c ≠ mark) (hbackslash : c ≠ '\\') :
    closingQuote? mark false (c :: rest) = (closingQuote? mark false rest).map (c.utf8Size + ·) := by
  simp [closingQuote?, hmark, hbackslash]

/-! ## The whole search -/

/-- `closingQuote?` is sound: what stands in front of the mark that it finds is a `QuotedBody`, or the
    rest of one that begins with a backslash. -/
theorem exists_of_closingQuote? {escaped : Bool} {text : Text} (hmark : mark ≠ '\\')
    (h : closingQuote? mark escaped text = some n) :
    ∃ body rest, text = body ++ mark :: rest ∧ body.size = n ∧
      QuotedBody mark (if escaped then '\\' :: body else body) := by
  induction text generalizing escaped n with
  | nil => cases h
  | cons c text ih =>
      cases escaped with
      | true =>
          rw [closingQuote?_pending] at h
          obtain ⟨k, hk, rfl⟩ := Option.map_eq_some_iff.mp h
          obtain ⟨body, rest, rfl, rfl, hbody⟩ := ih hk
          exact ⟨c :: body, rest, rfl, rfl, .escaped hbody⟩
      | false =>
          by_cases hbackslash : c = '\\'
          · subst hbackslash
            rw [closingQuote?_backslash] at h
            obtain ⟨k, hk, rfl⟩ := Option.map_eq_some_iff.mp h
            obtain ⟨body, rest, rfl, rfl, hbody⟩ := ih hk
            exact ⟨'\\' :: body, rest, rfl, rfl, hbody⟩
          by_cases hc : c = mark
          · subst hc
            rw [closingQuote?_mark hmark] at h
            exact ⟨[], text, rfl, Option.some.inj h, .nil⟩
          · rw [closingQuote?_plain hc hbackslash] at h
            obtain ⟨k, hk, rfl⟩ := Option.map_eq_some_iff.mp h
            obtain ⟨body, rest, rfl, rfl, hbody⟩ := ih hk
            exact ⟨c :: body, rest, rfl, rfl, .plain hc hbackslash hbody⟩

/-- `closingQuote?` is complete: behind a `QuotedBody` the mark that comes next is found. -/
theorem closingQuote?_of_quotedBody (hmark : mark ≠ '\\') (hbody : QuotedBody mark body) (rest : Text) :
    closingQuote? mark false (body ++ mark :: rest) = some body.size := by
  induction hbody with
  | nil => exact closingQuote?_mark hmark
  | plain hc hbackslash _ ih =>
      rw [List.cons_append, closingQuote?_plain hc hbackslash, ih]
      rfl
  | escaped _ ih =>
      rw [List.cons_append, closingQuote?_backslash, List.cons_append, closingQuote?_pending, ih]
      rfl

/-! ## The marker -/

/-- `rawMarker` splits a literal into its marker and what is quoted. -/
theorem eq_of_rawMarker {literal quoted : Text} {raw : Bool} (h : rawMarker literal = (raw, quoted)) :
    literal = marker raw ++ quoted := by
  unfold rawMarker at h
  split at h
  · cases h
    rfl
  · cases h
    rfl

theorem rawMarker_marker (raw : Bool) (hmark : mark ≠ 'r') :
    rawMarker (marker raw ++ mark :: rest) = (raw, mark :: rest) := by
  cases raw with
  | true => rfl
  | false =>
      show rawMarker (mark :: rest) = (false, mark :: rest)
      unfold rawMarker
      split
      next heq => exact absurd (List.cons.inj heq).1 hmark
      next => rfl

theorem size_marker (raw : Bool) : (marker raw).size = if raw then 1 else 0 := by
  cases raw <;> rfl

end Recognizer

end Graft
