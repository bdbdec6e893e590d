import Graft.Proofs.Element.Shift
import Graft.Regex.Follows

/-!
# `Graft.Proofs.Regex.Place` — matches at a place of a longer text

A match in the rest of a text is a match in the whole text, at a later place: the offsets grow by what
stands before the rest (`Matcher.matchAt?_shift`). The whole text also shows the character before the
place. Only some tests look at it; where an expression has none of them, it makes no difference
(`Matcher.matchAt?_behind`).
-/

namespace Graft.Regex

/-- The same place in a text that begins `d` bytes earlier. -/
def Cursor.shift (d : Nat) (x : Cursor) : Cursor :=
  { x with
    offset := d + x.offset
    groups := x.groups.map (Prod.map id (Span.shift d)) }

/-- The same match in a text that begins `d` bytes earlier. -/
def Match.shift (d : Nat) (m : Match) : Match :=
  ⟨m.span.shift d, m.groups.map (Prod.map id (Span.shift d))⟩

theorem Match.group?_shift (d : Nat) (m : Match) (index : Nat) :
    (m.shift d).group? index = (m.group? index).map (Span.shift d) := by
  show (m.groups.map _).lookup index = (m.groups.lookup index).map _
  induction m.groups with
  | nil => rfl
  | cons g groups ih =>
      rw [List.map_cons, List.lookup_cons, List.lookup_cons]
      show (match index == g.1 with | true => _ | false => _) = _
      cases index == g.1 with
      | true => rfl
      | false => exact ih

/-- The same place behind another character. -/
def Cursor.behind (before : Option Char) (x : Cursor) : Cursor :=
  { x with before := before }

namespace Matcher

/-! ## Offsets -/

variable {d : Nat} {x : Cursor}

theorem againPaths_shift {round : Cursor → List Cursor}
    (hround : ∀ x, round (x.shift d) = (round x).map (·.shift d)) (label : Nat) (greedy : Bool)
    (bound : Nat) (x : Cursor) :
    againPaths round label greedy bound (x.shift d) =
      (againPaths round label greedy bound x).map (·.shift d) := by
  induction bound generalizing x with
  | zero => rfl
  | succ bound ih =>
      have hpass : (x.shift d).pass label = (x.pass label).shift d := rfl
      have hseen : (x.shift d).seen = x.seen := rfl
      unfold againPaths
      dsimp only
      by_cases hs : label ∈ x.seen
      · rw [hseen, if_pos hs, if_pos hs, List.map_nil]
      · rw [hseen, if_neg hs, if_neg hs, hpass, hround, List.flatMap_map]
        cases greedy <;> simp [ih, List.map_flatMap]

/-- `paths` commute with `Cursor.shift`: offsets are noted and never compared with anything but each
    other. -/
theorem paths_shift (m : Matcher) (d : Nat) (x : Cursor) :
    m.paths (x.shift d) = (m.paths x).map (·.shift d) := by
  induction m generalizing x with
  | empty => rfl
  | set s =>
      obtain ⟨before, rest, offset, seen, groups⟩ := x
      cases rest with
      | nil => rfl
      | cons c rest =>
          by_cases hc : s.contains c = true <;>
            simp [paths, Cursor.consume?, Cursor.shift, hc, Nat.add_assoc]
  | look l =>
      show (if l.holds x.before x.rest.head? then _ else _) =
        List.map _ (if l.holds x.before x.rest.head? then _ else _)
      split <;> rfl
  | capture index m ih =>
      simp only [paths, ih, List.map_map]
      rfl
  | seq a b iha ihb => simp only [paths, iha, ihb, List.flatMap_map, List.map_flatMap]
  | alt label a b iha ihb =>
      have hpass : (x.shift d).pass label = (x.pass label).shift d := rfl
      show (if label ∈ x.seen then _ else _) = List.map _ (if label ∈ x.seen then _ else _)
      split
      · rfl
      · rw [hpass, iha, ihb, List.map_append]
  | plus label greedy m ih =>
      have hrest : (x.shift d).rest = x.rest := rfl
      simp only [paths, ih, hrest, List.flatMap_map, List.map_flatMap, againPaths_shift ih]

/-- Moving the place where a match starts moves the match. -/
theorem matchAt?_shift (m : Matcher) (d : Nat) (x : Cursor) :
    m.matchAt? (x.shift d) = (m.matchAt? x).map (·.shift d) := by
  rw [matchAt?, matchAt?, first_eq_findSome?, first_eq_findSome?, paths_shift, List.findSome?_map]
  cases m.paths x <;> rfl

end Matcher

/-! ## The character before -/

/-- The test does not look at the character before it. -/
def Look.looksAhead : Look → Bool
  | textStop | lineStop | word .stopHalf _ => true
  | _ => false

theorem Look.holds_eq {l : Look} (h : l.looksAhead = true) (before before' after : Option Char) :
    l.holds before after = l.holds before' after := by
  cases l with
  | textStop | lineStop => rfl
  | word edge ascii => cases edge <;> first | rfl | cases h
  | _ => cases h

/-- No test of the expression looks at the character before it. -/
def looksAhead : Regex → Bool
  | empty | set _ => true
  | look l => l.looksAhead
  | capture _ r => r.looksAhead
  | seq a b | alt a b => a.looksAhead && b.looksAhead
  | rep _ _ _ r => r.looksAhead

namespace Matcher

/-- No test of the expression looks at the character before it. -/
def looksAhead : Matcher → Bool
  | empty | set _ => true
  | look l => l.looksAhead
  | capture _ m => m.looksAhead
  | seq a b | alt _ a b => a.looksAhead && b.looksAhead
  | plus _ _ m => m.looksAhead

/-- A part that looks ahead whatever its labels are. -/
def Ahead (part : Labelled) : Prop :=
  ∀ n, (part n).1.looksAhead = true

theorem Ahead.followed {first second : Labelled} (h : Ahead first) (h' : Ahead second) :
    Ahead (followed first second) := by
  intro n
  show ((first n).1.looksAhead && (second (first n).2).1.looksAhead) = true
  rw [h n, h' _]
  rfl

theorem Ahead.optional {part : Labelled} (h : Ahead part) (greedy : Bool) :
    Ahead (optional greedy part) := by
  intro n
  cases greedy <;> simp [Matcher.optional, looksAhead, h (n + 1)]

theorem Ahead.rounds {part : Labelled} (h : Ahead part) (greedy : Bool) :
    Ahead (rounds greedy part) :=
  fun n => h (n + 1)

theorem Ahead.copies {part last : Labelled} (h : Ahead part) (h' : Ahead last) (count : Nat) :
    Ahead (copies part last count) := by
  induction count with
  | zero => exact h'
  | succ count ih => exact h.followed ih

theorem Ahead.upTo {part : Labelled} (h : Ahead part) (greedy : Bool) (count : Nat) :
    Ahead (upTo greedy part count) := by
  induction count with
  | zero => exact fun n => rfl
  | succ count ih => exact (h.followed ih).optional greedy

/-- If an expression `looksAhead`, its matcher does, whatever labels it gets. -/
theorem ahead_label {r : Regex} (h : r.looksAhead = true) : Ahead (label r) := by
  induction r with
  | empty | set => exact fun n => rfl
  | look l => exact fun n => h
  | capture index r ih => exact ih h
  | seq a b iha ihb =>
      obtain ⟨ha, hb⟩ := Bool.and_eq_true_iff.mp h
      exact (iha ha).followed (ihb hb)
  | alt a b iha ihb =>
      obtain ⟨ha, hb⟩ := Bool.and_eq_true_iff.mp h
      intro n
      show ((label a (n + 1)).1.looksAhead && (label b (label a (n + 1)).2).1.looksAhead) = true
      rw [iha ha _, ihb hb _]
      rfl
  | rep greedy least most r ih =>
      have hr := ih h
      cases most with
      | some most => rw [label]; exact hr.copies (hr.upTo greedy _) least
      | none =>
          cases least with
          | zero => exact (hr.rounds greedy).optional greedy
          | succ least => exact hr.copies (hr.rounds greedy) least

variable {β : Type} {x : Cursor}

/-- A continuation to which the character before a place makes no difference. -/
def Forgets (k : Cursor → Option β) : Prop :=
  ∀ x before, k (x.behind before) = k x

theorem forgets_again {m : Matcher} {k : Cursor → Option β} (hk : Forgets k)
    (hm : ∀ k' : Cursor → Option β, Forgets k' → Forgets fun x => m.first x k') (label : Nat)
    (greedy : Bool) (bound : Nat) : Forgets (again m.first label greedy k bound) := by
  induction bound with
  | zero => exact fun _ _ => rfl
  | succ bound ih =>
      intro x before
      have hpass : (x.behind before).pass label = (x.pass label).behind before := rfl
      have hround : m.first ((x.pass label).behind before)
            (fun y => again m.first label greedy k bound y) =
          m.first (x.pass label) fun y => again m.first label greedy k bound y :=
        hm _ ih (x.pass label) before
      unfold again
      show (if label ∈ x.seen then _ else _) = if label ∈ x.seen then _ else _
      split
      · rfl
      · dsimp only
        rw [hpass, hround, hk]

/-- If no test looks back, a continuation that `Forgets` what is before is all that `first` needs. By
    induction on the expression, which hands on to its parts what it is asked to do. -/
theorem forgets_first {m : Matcher} (h : m.looksAhead = true) {k : Cursor → Option β}
    (hk : Forgets k) : Forgets fun x => m.first x k := by
  induction m generalizing k with
  | empty => exact hk
  | set s => exact fun _ _ => rfl
  | look l =>
      intro x before
      show (if l.holds before x.rest.head? then k (x.behind before) else none) =
        if l.holds x.before x.rest.head? then k x else none
      rw [Look.holds_eq h before x.before, hk]
  | capture index m ih =>
      intro x before
      exact ih h (fun y before => hk (y.close index x.offset) before) x before
  | seq a b iha ihb =>
      obtain ⟨ha, hb⟩ := Bool.and_eq_true_iff.mp h
      exact iha ha (ihb hb hk)
  | alt label a b iha ihb =>
      obtain ⟨ha, hb⟩ := Bool.and_eq_true_iff.mp h
      intro x before
      have hpass : (x.behind before).pass label = (x.pass label).behind before := rfl
      have hfirst : a.first ((x.pass label).behind before) k = a.first (x.pass label) k :=
        iha ha hk (x.pass label) before
      have hsecond : b.first ((x.pass label).behind before) k = b.first (x.pass label) k :=
        ihb hb hk (x.pass label) before
      show (if label ∈ x.seen then _ else _) = if label ∈ x.seen then _ else _
      rw [hpass, hfirst, hsecond]
  | plus label greedy m ih =>
      intro x before
      exact ih h (forgets_again hk (fun _ => ih h) label greedy _) x before

/-- So the character before a place makes no difference to `matchAt?` there. -/
theorem matchAt?_behind {m : Matcher} (h : m.looksAhead = true) (x : Cursor) (before : Option Char) :
    m.matchAt? (x.behind before) = m.matchAt? x := by
  let answer (y : Cursor) : Option Match := some ⟨⟨x.offset, y.offset⟩, y.groups⟩
  have hforgets : Forgets answer := fun _ _ => rfl
  exact forgets_first h hforgets x before

end Matcher

end Graft.Regex
