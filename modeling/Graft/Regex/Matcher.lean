import Graft.Regex.Basic
import Graft.Text.Basic
import Graft.Span

/-!
# `Graft.Regex.Matcher` — leftmost-first matching

An expression is first brought into a form with one kind of choice and one kind of loop, every one of
them under a label of its own (`Matcher.ofRegex`). A match then walks through the form and tries the
preferred branch of each choice first. A walk that comes back to a label without having consumed a
character since it was there before leads nowhere new and is given up: so loops whose rounds may
consume nothing end, and stop where their first empty round does.

## Contents
- `Matcher`, `Matcher.ofRegex`: labelled choices and loops.
- `Cursor`: a place in a text, with what was seen and captured on the way.
- `Matcher.first`: the first walk, in order of preference, that a continuation accepts.
- `Matcher.find?`: the leftmost match in a text, and the most preferred one there.
-/

namespace Graft.Regex

/-- An expression with labelled choices and loops. -/
inductive Matcher
  | empty
  | set (s : CharSet)
  | look (l : Look)
  | capture (index : Nat) (m : Matcher)
  | seq (a b : Matcher)
  /-- The first part, or else the second. -/
  | alt (label : Nat) (a b : Matcher)
  /-- One round or more; `greedy` prefers another round to going on. -/
  | plus (label : Nat) (greedy : Bool) (m : Matcher)
deriving DecidableEq, Repr

namespace Matcher

/-! ## Labelling -/

/-- A part that takes labels from the given number on and hands back the next free one. -/
abbrev Labelled := Nat → Matcher × Nat

/-- A part, if possible; `greedy` prefers it to nothing. -/
def optional (greedy : Bool) (part : Labelled) : Labelled := fun label =>
  let (m, next) := part (label + 1)
  (if greedy then alt label m empty else alt label empty m, next)

/-- One part after another. -/
def followed (first second : Labelled) : Labelled := fun label =>
  let (a, next) := first label
  let (b, next) := second next
  (seq a b, next)

/-- One round or more. -/
def rounds (greedy : Bool) (part : Labelled) : Labelled := fun label =>
  let (m, next) := part (label + 1)
  (plus label greedy m, next)

/-- `n` copies of a part and then a last one, each with labels of its own. -/
def copies (part last : Labelled) : Nat → Labelled
  | 0 => last
  | n + 1 => followed part (copies part last n)

/-- Up to `n` copies of a part, each only after the one before. -/
def upTo (greedy : Bool) (part : Labelled) : Nat → Labelled
  | 0 => fun label => (empty, label)
  | n + 1 => optional greedy (followed part (upTo greedy part n))

/-- The labelled form of an expression, with labels from a given number on. -/
def label : Regex → Labelled
  | .empty => fun n => (empty, n)
  | .set s => fun n => (set s, n)
  | .look l => fun n => (look l, n)
  | .capture index r => fun n =>
      let (m, next) := label r n
      (capture index m, next)
  | .seq a b => followed (label a) (label b)
  | .alt a b => fun n =>
      let (a, next) := label a (n + 1)
      let (b, next) := label b next
      (alt n a b, next)
  | .rep greedy 0 none r => optional greedy (rounds greedy (label r))
  | .rep greedy (n + 1) none r => copies (label r) (rounds greedy (label r)) n
  | .rep greedy least (some most) r =>
      copies (label r) (upTo greedy (label r) (most - least)) least

/-- The labelled form of an expression. -/
def ofRegex (r : Regex) : Matcher :=
  (label r 0).1

end Matcher

/-! ## Walking through a text -/

/-- A place in a text. -/
structure Cursor where
  /-- The character before, if there is one. -/
  before : Option Char
  /-- The characters to come. -/
  rest : Text
  /-- The number of bytes passed. -/
  offset : Nat
  /-- The labels passed since the last character was consumed. -/
  seen : List Nat
  /-- What groups have matched, the latest first. -/
  groups : List (Nat × Span)
deriving DecidableEq, Repr

namespace Cursor

/-- The start of a text. -/
def start (t : Text) : Cursor :=
  ⟨none, t, 0, [], []⟩

/-- The place after the next character, if that belongs to a set. -/
def consume? (x : Cursor) (s : CharSet) : Option Cursor :=
  match x.rest with
  | c :: rest =>
      if s.contains c then some ⟨some c, rest, x.offset + c.utf8Size, [], x.groups⟩ else none
  | [] => none

/-- The same place, with a label noted as passed. -/
def pass (x : Cursor) (label : Nat) : Cursor :=
  { x with seen := label :: x.seen }

/-- The same place, with a group noted that started at `offset`. -/
def close (x : Cursor) (index offset : Nat) : Cursor :=
  { x with groups := (index, ⟨offset, x.offset⟩) :: x.groups }

end Cursor

namespace Matcher

variable {β : Type}

/-- After a round: another one or going on, in the order of preference, unless the label was passed
    since the last character. The bound is the number of rounds that can still be completed. -/
def again (round : Cursor → (Cursor → Option β) → Option β) (label : Nat) (greedy : Bool)
    (k : Cursor → Option β) : Nat → Cursor → Option β
  | 0, _ => none
  | bound + 1, x =>
      if label ∈ x.seen then none
      else
        let x := x.pass label
        if greedy then (round x fun y => again round label greedy k bound y) <|> k x
        else k x <|> (round x fun y => again round label greedy k bound y)

/-- The answer of the continuation `k` at the first place, in order of preference, where a match can
    end and `k` has an answer. -/
def first : Matcher → Cursor → (Cursor → Option β) → Option β
  | empty, x, k => k x
  | set s, x, k => (x.consume? s).bind k
  | look l, x, k => if l.holds x.before x.rest.head? then k x else none
  | capture index m, x, k => first m x fun y => k (y.close index x.offset)
  | seq a b, x, k => first a x fun y => first b y k
  | alt label a b, x, k =>
      if label ∈ x.seen then none else first a (x.pass label) k <|> first b (x.pass label) k
  | plus label greedy m, x, k =>
      first m x fun y => again (first m) label greedy k (x.rest.length + 1) y

end Matcher

/-- A match: what was matched, and what the groups matched last. -/
structure Match where
  span : Span
  groups : List (Nat × Span)
deriving DecidableEq, Repr

/-- What a group matched, if it took part. -/
def Match.group? (m : Match) (index : Nat) : Option Span :=
  m.groups.lookup index

namespace Matcher

/-- The preferred match that starts at a given place. -/
def matchAt? (m : Matcher) (x : Cursor) : Option Match :=
  m.first x fun y => some ⟨⟨x.offset, y.offset⟩, y.groups⟩

/-- The preferred match at the first place at or after the given one where there is any. -/
def findFrom? (m : Matcher) (before : Option Char) (offset : Nat) : Text → Option Match
  | [] => m.matchAt? ⟨before, [], offset, [], []⟩
  | c :: rest =>
      m.matchAt? ⟨before, c :: rest, offset, [], []⟩
        <|> findFrom? m (some c) (offset + c.utf8Size) rest

/-- The leftmost match in a text, and the preferred one among those that start there. -/
def find? (m : Matcher) (t : Text) : Option Match :=
  m.findFrom? none 0 t

end Matcher

end Graft.Regex
