import Graft.Unicode.WhiteSpace

/-!
# `Graft.Text.Basic` — texts addressed by byte offsets

A text is a list of characters; every position in it is the number of bytes that its UTF-8 encoding
takes up to there. A position may therefore fall inside a character, and one that comes from outside
may lie past the end: each function below says what it answers then.

## Contents
- `size`, `from?`, `upTo?`, `slice?`, `isBoundary` and `ahead`: measuring and cutting.
- `floorBoundary` and `fromFloor`: the nearest cut that exists at or before a position.
- `isBlank`, `pieces`, `lines`, `find?`: white space, the stretches between newlines, the lines with
  their newlines, and the first occurrence of a character.
-/

namespace Graft

/-- A text: its characters in order. Offsets into it count UTF-8 bytes. -/
abbrev Text := List Char

namespace Text

/-! ## Measuring and cutting -/

/-- The number of bytes of a text. -/
def size : Text → Nat
  | [] => 0
  | c :: cs => c.utf8Size + size cs

/-- The text from position `p` on, if `p` does not lie inside a character or past the end. -/
def from? : Text → Nat → Option Text
  | [], p => if p = 0 then some [] else none
  | c :: cs, p =>
      if p = 0 then some (c :: cs)
      else if c.utf8Size ≤ p then from? cs (p - c.utf8Size) else none

/-- The text before position `p`, if `p` does not lie inside a character or past the end. -/
def upTo? : Text → Nat → Option Text
  | [], p => if p = 0 then some [] else none
  | c :: cs, p =>
      if p = 0 then some []
      else if c.utf8Size ≤ p then (upTo? cs (p - c.utf8Size)).map (c :: ·) else none

/-- The text between two positions, if they are in order and both can be cut at. -/
def slice? (t : Text) (start stop : Nat) : Option Text :=
  if start ≤ stop then (t.from? start).bind (upTo? · (stop - start)) else none

/-- Whether a text can be cut at position `p`. Both ends count. -/
def isBoundary (t : Text) (p : Nat) : Bool :=
  (t.from? p).isSome

/-- The text that lies ahead of position `p`: the rest of the text, or all of it where it cannot be
    cut. -/
def ahead (t : Text) (p : Nat) : Text :=
  (t.from? p).getD t

@[simp] theorem size_nil : size [] = 0 := rfl

@[simp] theorem size_cons (c : Char) (cs : Text) : size (c :: cs) = c.utf8Size + size cs := rfl

@[simp] theorem size_append (s t : Text) : size (s ++ t) = size s + size t := by
  induction s with
  | nil => simp
  | cons c cs ih => simp [ih, Nat.add_assoc]

@[simp] theorem from?_zero (t : Text) : from? t 0 = some t := by
  cases t <;> simp [from?]

@[simp] theorem from?_size_append (s t : Text) : from? (s ++ t) (size s) = some t := by
  induction s with
  | nil => simp
  | cons c cs ih =>
      have := c.utf8Size_pos
      simp only [List.cons_append, size_cons, from?]
      rw [if_neg (by omega), if_pos (by omega), Nat.add_sub_cancel_left, ih]

/-- A cut by `from?` splits the text: what stands before it has exactly that many bytes. -/
theorem exists_of_from? {t r : Text} {p : Nat} (h : from? t p = some r) :
    ∃ s, t = s ++ r ∧ size s = p := by
  induction t generalizing p with
  | nil =>
      by_cases hp : p = 0
      · exact ⟨[], by simp_all [from?]⟩
      · simp [from?, hp] at h
  | cons c cs ih =>
      by_cases hp : p = 0
      · exact ⟨[], by simp_all [from?]⟩
      · by_cases hw : c.utf8Size ≤ p
        · simp only [from?, hp, hw, if_true, if_false] at h
          obtain ⟨s, rfl, hs⟩ := ih h
          exact ⟨c :: s, by simp, by simp [hs]; omega⟩
        · simp [from?, hp, hw] at h

/-- Cutting at `p` leaves `r` exactly where the text is `p` bytes followed by `r`. -/
theorem from?_eq_some_iff {t r : Text} {p : Nat} :
    from? t p = some r ↔ ∃ s, t = s ++ r ∧ size s = p := by
  refine ⟨exists_of_from?, ?_⟩
  rintro ⟨s, rfl, rfl⟩
  exact from?_size_append s r

/-! ## The nearest cut before a position -/

/-- The largest position not after `p` at which a text can be cut. -/
def floorBoundary : Text → Nat → Nat
  | [], _ => 0
  | c :: cs, p => if c.utf8Size ≤ p then c.utf8Size + floorBoundary cs (p - c.utf8Size) else 0

/-- The text from the nearest cut at or before `p` on. -/
def fromFloor : Text → Nat → Text
  | [], _ => []
  | c :: cs, p => if c.utf8Size ≤ p then fromFloor cs (p - c.utf8Size) else c :: cs

/-! ## Blanks and pieces -/

/-- Whether a text holds nothing but white space. -/
def isBlank (t : Text) : Bool :=
  t.all Unicode.isWhiteSpace

/-- The stretches between newlines: one more than there are newlines, none of them with one. -/
def pieces : Text → List Text
  | [] => [[]]
  | c :: cs =>
      if c = '\n' then [] :: pieces cs
      else match pieces cs with
        | [] => [[c]]
        | piece :: rest => (c :: piece) :: rest

/-- The lines of a text, each with the newline that ends it. -/
def lines : Text → List Text
  | [] => []
  | c :: cs =>
      if c = '\n' then ['\n'] :: lines cs
      else match lines cs with
        | [] => [[c]]
        | line :: rest => (c :: line) :: rest

/-- The number of bytes before the first occurrence of a character. -/
def find? (sought : Char) : Text → Option Nat
  | [] => none
  | c :: cs => if c = sought then some 0 else (find? sought cs).map (c.utf8Size + ·)

/-- The decimal digits of a number. -/
def ofNat (n : Nat) : Text :=
  Nat.toDigits 10 n

end Text

end Graft
