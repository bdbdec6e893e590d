import Graft.Regex.Matcher

/-!
# `Graft.Regex.Paths` — all walks through an expression

The places where a match may end, listed in order of preference (`Matcher.paths`). The list is long,
and matching never builds it; but it says what matching finds: the answer of a continuation at the
first place in the list where it has one (`first_eq_findSome?`).
-/

namespace Graft.Regex.Matcher

/-- After a round: the ends of further rounds and the place itself, in the order of preference. -/
def againPaths (round : Cursor → List Cursor) (label : Nat) (greedy : Bool) :
    Nat → Cursor → List Cursor
  | 0, _ => []
  | bound + 1, x =>
      if label ∈ x.seen then []
      else
        let x := x.pass label
        let further := (round x).flatMap fun y => againPaths round label greedy bound y
        if greedy then further ++ [x] else x :: further

/-- The inversion of `againPaths`: after a round another one was made, or the path went on. Which of them
    was preferred plays no role. -/
theorem mem_againPaths_succ {round : Cursor → List Cursor} {label bound : Nat} {greedy : Bool}
    {x y : Cursor} (h : y ∈ againPaths round label greedy (bound + 1) x) :
    (∃ z ∈ round (x.pass label), y ∈ againPaths round label greedy bound z) ∨ y = x.pass label := by
  unfold againPaths at h
  by_cases hs : label ∈ x.seen
  · simp [hs] at h
  · cases greedy <;> simp [hs] at h <;> grind

/-- The places where a match that starts at `x` may end, in order of preference. -/
def paths : Matcher → Cursor → List Cursor
  | empty, x => [x]
  | set s, x => (x.consume? s).toList
  | look l, x => if l.holds x.before x.rest.head? then [x] else []
  | capture index m, x => (paths m x).map (·.close index x.offset)
  | seq a b, x => (paths a x).flatMap fun y => paths b y
  | alt label a b, x =>
      if label ∈ x.seen then [] else paths a (x.pass label) ++ paths b (x.pass label)
  | plus label greedy m, x =>
      (paths m x).flatMap fun y => againPaths (paths m) label greedy (x.rest.length + 1) y

variable {α β : Type}

/-- `findSome?` in a list of lists, list by list. -/
theorem findSome?_flatMap {γ : Type} (f : α → List β) (k : β → Option γ) (l : List α) :
    (l.flatMap f).findSome? k = l.findSome? fun a => (f a).findSome? k := by
  induction l with
  | nil => rfl
  | cons a rest ih => simp [List.findSome?_append, List.findSome?_cons, ih]; cases (f a).findSome? k <;> rfl

/-- `first_eq_findSome?` for loops: rounds that agree with their paths agree with `againPaths` when they
    are repeated. -/
theorem again_eq_findSome? {round : Cursor → (Cursor → Option β) → Option β}
    {roundPaths : Cursor → List Cursor}
    (h : ∀ x k, round x k = (roundPaths x).findSome? k) (label : Nat) (greedy : Bool)
    (k : Cursor → Option β) (bound : Nat) (x : Cursor) :
    again round label greedy k bound x
      = (againPaths roundPaths label greedy bound x).findSome? k := by
  induction bound generalizing x with
  | zero => rfl
  | succ bound ih =>
      unfold again againPaths
      by_cases hs : label ∈ x.seen
      · simp [hs]
      · cases greedy <;>
          simp [hs, h, ih, findSome?_flatMap, List.findSome?_append, List.findSome?_cons] <;>
          cases k (x.pass label) <;> rfl

/-- `first` is `findSome?` over `paths`: matching finds what the continuation says at the first place
    where it says anything. All that is proved of matches goes by paths from here on. -/
theorem first_eq_findSome? (m : Matcher) (x : Cursor) (k : Cursor → Option β) :
    m.first x k = (m.paths x).findSome? k := by
  induction m generalizing x k with
  | empty => simp [first, paths]
  | set s => cases h : x.consume? s <;> simp [first, paths, h]
  | look l => by_cases h : l.holds x.before x.rest.head? <;> simp [first, paths, h]
  | capture index m ih => simp [first, paths, ih, List.findSome?_map, Function.comp_def]
  | seq a b iha ihb => simp [first, paths, iha, ihb, findSome?_flatMap]
  | alt label a b iha ihb =>
      by_cases h : label ∈ x.seen
      · simp [first, paths, h]
      · simp [first, paths, h, iha, ihb, List.findSome?_append]
  | plus label greedy m ih =>
      simp only [first, paths, ih, findSome?_flatMap]
      congr 1
      funext y
      exact again_eq_findSome? (fun x k => ih x k) label greedy k _ y

end Graft.Regex.Matcher
