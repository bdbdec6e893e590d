/-!
# `Graft.Unicode.RangeTable` — sets of characters as sorted ranges

A Unicode property is a long set of code points that falls into a few hundred runs. A table lists
the runs in ascending order, so that a look-up may stop at the first run that lies beyond the
character. That the order is kept is part of a table, and `RangeTable.contains_iff` says that stopping
early loses nothing.
-/

namespace Graft.Unicode

/-- Every range starts at `low` or later, and behind the range before it. -/
def Ascending : Nat → List (Nat × Nat) → Prop
  | _, [] => True
  | low, (lo, hi) :: rest => low ≤ lo ∧ lo ≤ hi ∧ Ascending (hi + 1) rest

instance Ascending.decidable : ∀ low ranges, Decidable (Ascending low ranges)
  | _, [] => .isTrue trivial
  | low, (lo, hi) :: rest =>
      have := Ascending.decidable (hi + 1) rest
      inferInstanceAs (Decidable (low ≤ lo ∧ lo ≤ hi ∧ Ascending (hi + 1) rest))

/-- Inclusive ranges of code points, in ascending order and without overlaps. -/
structure RangeTable where
  ranges : List (Nat × Nat)
  ascending : Ascending 0 ranges

/-- Whether one of some ascending ranges holds code point `n`. -/
def search : List (Nat × Nat) → Nat → Bool
  | [], _ => false
  | (lo, hi) :: rest, n => if n < lo then false else n ≤ hi || search rest n

/-- No range of an `Ascending` list begins below its bound. -/
theorem Ascending.le_of_mem {low : Nat} {ranges : List (Nat × Nat)} (h : Ascending low ranges) :
    ∀ r ∈ ranges, low ≤ r.1 := by
  induction ranges generalizing low with
  | nil => simp
  | cons r rest ih =>
      obtain ⟨lo, hi⟩ := r
      obtain ⟨h1, h2, h3⟩ := h
      intro s hs
      rcases List.mem_cons.mp hs with rfl | hs
      · exact h1
      · have := ih h3 s hs
        omega

/-- Where `search` stops early, the ranges that follow lie behind, by `Ascending.le_of_mem`. -/
theorem search_iff {low : Nat} {ranges : List (Nat × Nat)} (h : Ascending low ranges) {n : Nat} :
    search ranges n = true ↔ ∃ r ∈ ranges, r.1 ≤ n ∧ n ≤ r.2 := by
  induction ranges generalizing low with
  | nil => simp [search]
  | cons r rest ih =>
      obtain ⟨lo, hi⟩ := r
      obtain ⟨-, hle, hrest⟩ := h
      have hmem : (∃ r ∈ (lo, hi) :: rest, r.1 ≤ n ∧ n ≤ r.2) ↔
          (lo ≤ n ∧ n ≤ hi) ∨ search rest n = true := by
        simp [ih hrest]
      rw [hmem, search]
      by_cases hlo : n < lo
      · have hbehind : search rest n ≠ true := by
          intro hfound
          obtain ⟨s, hs, hn, -⟩ := (ih hrest).mp hfound
          have := hrest.le_of_mem s hs
          omega
        simp [hlo, hbehind, Nat.not_le_of_lt hlo]
      · simp [hlo, Nat.le_of_not_lt hlo]

namespace RangeTable

/-- Whether code point `n` lies in one of the ranges. -/
def contains (t : RangeTable) (n : Nat) : Bool :=
  search t.ranges n

/-- A look-up finds exactly the members of the ranges: `search_iff` with the order that a table has. -/
theorem contains_iff {t : RangeTable} {n : Nat} :
    t.contains n = true ↔ ∃ r ∈ t.ranges, r.1 ≤ n ∧ n ≤ r.2 :=
  search_iff t.ascending

/-- No range of one table meets one of the other. -/
def Apart (a b : RangeTable) : Prop :=
  ∀ r ∈ a.ranges, ∀ s ∈ b.ranges, r.2 < s.1 ∨ s.2 < r.1

instance Apart.decidable (a b : RangeTable) : Decidable (a.Apart b) :=
  inferInstanceAs (Decidable (∀ r ∈ a.ranges, ∀ s ∈ b.ranges, r.2 < s.1 ∨ s.2 < r.1))

/-- Tables that are `Apart` have no code point in common, since look-ups tell the members of ranges
    (`contains_iff`). -/
theorem Apart.not_contains {a b : RangeTable} (h : a.Apart b) {n : Nat} (hn : a.contains n = true) :
    b.contains n = false := by
  obtain ⟨r, hr, hlo, hhi⟩ := contains_iff.mp hn
  cases hb : b.contains n with
  | false => rfl
  | true =>
      obtain ⟨s, hs, hlo', hhi'⟩ := contains_iff.mp hb
      rcases h r hr s hs with hapart | hapart <;> omega

end RangeTable

end Graft.Unicode
