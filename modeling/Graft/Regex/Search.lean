import Graft.Regex.Matcher

/-!
# `Graft.Regex.Search` — matching with a record

Where choices nest, plain matching walks again and again over the same ground. A search keeps a record
of the visits to labelled parts that led nowhere, and gives up at once where it comes to one of them a
second time. All labels of a program differ, so a label stands for the same part of the expression with
the same parts to come, and what has led nowhere once always will.

## Contents
- `Visit`, `Search`: what is recorded, and searches that consult the record and add to it.
- `Matcher.search`: `Matcher.first` with a record.
- `Matcher.labels`: the labels of an expression, all different in those made by `Matcher.ofRegex`.
- `Program`: an expression ready to be searched for, and `Program.find?`.
-/

namespace Graft.Regex

/-! ## The record -/

/-- Coming to a labelled part at a place. What groups have matched before plays no role in whether a
    match will be found, so the place is noted without it. -/
structure Visit where
  label : Nat
  offset : Nat
  seen : List Nat
  before : Option Char
  rest : Text
deriving DecidableEq, Repr

/-- The visit to a label at a place. -/
def Cursor.visit (x : Cursor) (label : Nat) : Visit :=
  ⟨label, x.offset, x.seen, x.before, x.rest⟩

/-- A part of a search: it has an answer or not, and hands on the visits known to lead nowhere. -/
abbrev Search (β : Type) := List Visit → Option β × List Visit

namespace Search

variable {β : Type}

/-- The search that finds nothing. -/
def fail : Search β := fun dead => (none, dead)

/-- The answer of the first search or else of the second. -/
def orElse (a b : Search β) : Search β := fun dead =>
  match a dead with
  | (none, dead) => b dead
  | found => found

/-- A search that starts with a visit: none at all if that is known to lead nowhere, and otherwise
    recorded if it finds nothing. -/
def noted (v : Visit) (body : Search β) : Search β := fun dead =>
  if v ∈ dead then (none, dead)
  else
    match body dead with
    | (none, dead) => (none, v :: dead)
    | found => found

end Search

namespace Matcher

variable {β : Type}

/-- `again` with a record. -/
def searchAgain (round : Cursor → (Cursor → Search β) → Search β) (label : Nat) (greedy : Bool)
    (k : Cursor → Search β) : Nat → Cursor → Search β
  | 0, _ => .fail
  | bound + 1, x =>
      if label ∈ x.seen then .fail
      else
        let further : Search β := fun dead =>
          round (x.pass label) (fun y => searchAgain round label greedy k bound y) dead
        let done : Search β := fun dead => k (x.pass label) dead
        .noted (x.visit label) (if greedy then .orElse further done else .orElse done further)

/-- `first` with a record. -/
def search : Matcher → Cursor → (Cursor → Search β) → Search β
  | empty, x, k => k x
  | set s, x, k =>
      match x.consume? s with
      | some y => k y
      | none => .fail
  | look l, x, k => if l.holds x.before x.rest.head? then k x else .fail
  | capture index m, x, k => search m x fun y => k (y.close index x.offset)
  | seq a b, x, k => search a x fun y => search b y k
  | alt label a b, x, k =>
      if label ∈ x.seen then .fail
      else
        .noted (x.visit label) (.orElse (fun dead => search a (x.pass label) k dead)
          fun dead => search b (x.pass label) k dead)
  | plus label greedy m, x, k =>
      search m x fun y => searchAgain (search m) label greedy k (x.rest.length + 1) y

end Matcher

/-! ## Programs -/

namespace Matcher

/-- The labels of an expression. -/
def labels : Matcher → List Nat
  | empty | set _ | look _ => []
  | capture _ m => labels m
  | seq a b => labels a ++ labels b
  | alt label a b => label :: (labels a ++ labels b)
  | plus label _ m => label :: labels m

/-- A part takes the labels from the given number on, each once and in order. -/
def Numbers (part : Labelled) : Prop :=
  ∀ n, ∃ count, (part n).2 = n + count ∧ (part n).1.labels = List.range' n count

theorem Numbers.followed {first second : Labelled} (h : Numbers first) (h' : Numbers second) :
    Numbers (followed first second) := by
  intro n
  obtain ⟨c, hnext, hlabels⟩ := h n
  obtain ⟨c', hnext', hlabels'⟩ := h' (n + c)
  refine ⟨c + c', ?_, ?_⟩
  · simp only [Matcher.followed, hnext, hnext']; omega
  · simp only [Matcher.followed, labels, hnext, hlabels, hlabels', List.range'_append_1]

theorem Numbers.optional {part : Labelled} (h : Numbers part) (greedy : Bool) :
    Numbers (optional greedy part) := by
  intro n
  obtain ⟨c, hnext, hlabels⟩ := h (n + 1)
  refine ⟨c + 1, ?_, ?_⟩
  · simp only [Matcher.optional, hnext]; omega
  · cases greedy <;> simp [Matcher.optional, labels, hlabels, List.range'_succ]

theorem Numbers.rounds {part : Labelled} (h : Numbers part) (greedy : Bool) :
    Numbers (rounds greedy part) := by
  intro n
  obtain ⟨c, hnext, hlabels⟩ := h (n + 1)
  refine ⟨c + 1, ?_, ?_⟩
  · simp only [Matcher.rounds, hnext]; omega
  · simp [Matcher.rounds, labels, hlabels, List.range'_succ]

theorem Numbers.copies {part last : Labelled} (h : Numbers part) (h' : Numbers last) (count : Nat) :
    Numbers (copies part last count) := by
  induction count with
  | zero => exact h'
  | succ count ih => exact h.followed ih

theorem Numbers.upTo {part : Labelled} (h : Numbers part) (greedy : Bool) (count : Nat) :
    Numbers (upTo greedy part count) := by
  induction count with
  | zero => exact fun n => ⟨0, rfl, rfl⟩
  | succ count ih => exact (h.followed ih).optional greedy

theorem numbers_label (r : Regex) : Numbers (label r) := by
  induction r with
  | empty | set | look => exact fun n => ⟨0, rfl, rfl⟩
  | capture index r ih => exact ih
  | seq a b iha ihb => exact iha.followed ihb
  | alt a b iha ihb =>
      intro n
      obtain ⟨c, hnext, hlabels⟩ := iha (n + 1)
      obtain ⟨c', hnext', hlabels'⟩ := ihb (n + 1 + c)
      refine ⟨c + c' + 1, ?_, ?_⟩
      · simp only [label, hnext, hnext']; omega
      · simp only [label, labels, hnext, hlabels, hlabels', List.range'_append_1, List.range'_succ]
  | rep greedy least most r ih =>
      cases most with
      | some most => rw [label]; exact ih.copies (ih.upTo greedy _) least
      | none =>
          cases least with
          | zero => exact (ih.rounds greedy).optional greedy
          | succ least => exact ih.copies (ih.rounds greedy) least

/-- The labels that `ofRegex` gives out are all different. -/
theorem nodup_labels_ofRegex (r : Regex) : (ofRegex r).labels.Nodup := by
  obtain ⟨count, -, h⟩ := numbers_label r 0
  rw [ofRegex, h]
  exact List.nodup_range'

/-- The preferred match that starts at a given place. -/
def searchAt (m : Matcher) (x : Cursor) : Search Match :=
  m.search x fun y dead => (some ⟨⟨x.offset, y.offset⟩, y.groups⟩, dead)

/-- The preferred match at the first place at or after the given one where there is any. One record
    serves all places. -/
def searchFrom (m : Matcher) (before : Option Char) (offset : Nat) : Text → Search Match
  | [] => m.searchAt ⟨before, [], offset, [], []⟩
  | c :: rest =>
      .orElse (m.searchAt ⟨before, c :: rest, offset, [], []⟩)
        fun dead => searchFrom m (some c) (offset + c.utf8Size) rest dead

end Matcher

/-- An expression that is ready to be searched for. -/
structure Program where
  matcher : Matcher
  distinct : matcher.labels.Nodup
deriving Repr

namespace Program

/-- The program of an expression. -/
def ofRegex (r : Regex) : Program :=
  ⟨.ofRegex r, Matcher.nodup_labels_ofRegex r⟩

/-- The leftmost match in a text, and the preferred one among those that start there. -/
def find? (p : Program) (t : Text) : Option Match :=
  (p.matcher.searchFrom none 0 t []).1

end Program

end Graft.Regex
