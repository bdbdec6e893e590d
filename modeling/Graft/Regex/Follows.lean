import Graft.Regex.Paths

/-!
# `Graft.Regex.Follows` — the order of places in a walk

A walk never goes back: it ends at a place that follows the one where it started
(`follows_of_mem_paths`). Hence a match depends on its continuation only at such places
(`first_congr`), and the bound on the rounds of a loop plays no role (`rounds?_eq`).
-/

namespace Graft.Regex

/-! ## Places -/

namespace Cursor

/-- A walk may come from `x` to `y`: a character is consumed in between, or no passed label is
    forgotten. -/
def Follows (x y : Cursor) : Prop :=
  y.rest.length < x.rest.length ∨ y.rest.length = x.rest.length ∧ x.seen ⊆ y.seen

theorem Follows.refl (x : Cursor) : Follows x x :=
  .inr ⟨rfl, fun _ h => h⟩

theorem Follows.trans {x y z : Cursor} (h : Follows x y) (h' : Follows y z) : Follows x z := by
  rcases h with h | ⟨h, hs⟩ <;> rcases h' with h' | ⟨h', hs'⟩
  · exact .inl (by omega)
  · exact .inl (by omega)
  · exact .inl (by omega)
  · exact .inr ⟨by omega, fun _ hl => hs' (hs hl)⟩

theorem follows_pass (x : Cursor) (label : Nat) : Follows x (x.pass label) :=
  .inr ⟨rfl, fun _ h => List.mem_cons_of_mem _ h⟩

theorem follows_of_consume? {x y : Cursor} {s : CharSet} (h : x.consume? s = some y) :
    Follows x y := by
  unfold consume? at h
  split at h
  next hr =>
    split at h
    · obtain rfl := Option.some.inj h
      exact .inl (by simp [hr])
    · cases h
  next => cases h

theorem length_le_of_follows {x y : Cursor} (h : Follows x y) : y.rest.length ≤ x.rest.length := by
  rcases h with h | h <;> omega

end Cursor

open Cursor (Follows)

/-! ## Walks -/

namespace Matcher

theorem follows_of_mem_againPaths {round : Cursor → List Cursor}
    (h : ∀ x y, y ∈ round x → Follows x y) (label : Nat) (greedy : Bool) (bound : Nat) {x y : Cursor}
    (hy : y ∈ againPaths round label greedy bound x) : Follows x y := by
  induction bound generalizing x with
  | zero => simp [againPaths] at hy
  | succ bound ih =>
      have hpass := Cursor.follows_pass x label
      rcases mem_againPaths_succ hy with ⟨z, hz, hy⟩ | rfl
      · exact (hpass.trans (h _ _ hz)).trans (ih hy)
      · exact hpass

/-- Every walk through an expression `Follows` where it came from. By induction on the expression. -/
theorem follows_of_mem_paths (m : Matcher) {x y : Cursor} (h : y ∈ m.paths x) : Follows x y := by
  induction m generalizing x y with
  | empty => simp [paths] at h; exact h ▸ .refl x
  | set s => exact Cursor.follows_of_consume? (by simpa [paths] using h)
  | look l =>
      simp only [paths] at h
      split at h
      · simp at h; exact h ▸ .refl x
      · cases h
  | capture index m ih =>
      simp only [paths, List.mem_map] at h
      obtain ⟨z, hz, rfl⟩ := h
      show Follows x z
      exact ih hz
  | seq a b iha ihb =>
      simp only [paths, List.mem_flatMap] at h
      obtain ⟨z, hz, h⟩ := h
      exact (iha hz).trans (ihb h)
  | alt label a b iha ihb =>
      simp only [paths] at h
      split at h
      · cases h
      · rcases List.mem_append.1 h with h | h
        · exact (Cursor.follows_pass x label).trans (iha h)
        · exact (Cursor.follows_pass x label).trans (ihb h)
  | plus label greedy m ih =>
      simp only [paths, List.mem_flatMap] at h
      obtain ⟨z, hz, h⟩ := h
      exact (ih hz).trans (follows_of_mem_againPaths (fun _ _ => ih) label greedy _ h)

variable {β : Type}

/-- `first` asks its continuation only about places that `Follows` the start. -/
theorem first_congr (m : Matcher) {x : Cursor} {k k' : Cursor → Option β}
    (h : ∀ y, Follows x y → k y = k' y) : m.first x k = m.first x k' := by
  have key : ∀ l : List Cursor, (∀ y ∈ l, k y = k' y) → l.findSome? k = l.findSome? k' := by
    intro l
    induction l with
    | nil => intro _; rfl
    | cons y l ih =>
        intro hl
        simp only [List.findSome?_cons, hl y (by simp), ih fun z hz => hl z (by simp [hz])]
  rw [first_eq_findSome?, first_eq_findSome?]
  exact key _ fun y hy => h y (follows_of_mem_paths m hy)

/-! ## Rounds without a bound -/

/-- Beyond the number of characters to come the bound of `again` plays no role. -/
theorem again_stable (m : Matcher) (label : Nat) (greedy : Bool) (k : Cursor → Option β)
    {n n' : Nat} {x : Cursor} (hn : label ∈ x.seen ∨ x.rest.length < n)
    (hn' : label ∈ x.seen ∨ x.rest.length < n') :
    again m.first label greedy k n x = again m.first label greedy k n' x := by
  by_cases hs : label ∈ x.seen
  · cases n <;> cases n' <;> simp [again, hs]
  · simp only [hs, false_or] at hn hn'
    induction n generalizing n' x with
    | zero => omega
    | succ n ih =>
        cases n' with
        | zero => omega
        | succ n' =>
            have step : (m.first (x.pass label) fun y => again m.first label greedy k n y)
                = m.first (x.pass label) fun y => again m.first label greedy k n' y := by
              apply first_congr
              intro y hy
              by_cases hys : label ∈ y.seen
              · cases n <;> cases n' <;> simp [again, hys]
              · rcases hy with hy | ⟨_, hy⟩
                · have hy : y.rest.length < x.rest.length := hy
                  exact ih hys (by omega) (by omega)
                · exact absurd (hy (List.mem_cons_self ..)) hys
            simp only [again, hs, if_false, step]

/-- After a round: another one or going on, without a bound. -/
def rounds? (m : Matcher) (label : Nat) (greedy : Bool) (k : Cursor → Option β) (x : Cursor) :
    Option β :=
  again m.first label greedy k (x.rest.length + 1) x

/-- The bound on the rounds of a loop is never reached: a round that consumes nothing passes its label,
    and no second one does. So `again` with enough rounds is `rounds?`, which has no bound. -/
theorem again_eq_rounds? (m : Matcher) (label : Nat) (greedy : Bool) (k : Cursor → Option β)
    {n : Nat} {x : Cursor} (hn : label ∈ x.seen ∨ x.rest.length < n) :
    again m.first label greedy k n x = rounds? m label greedy k x :=
  again_stable m label greedy k hn (.inr (Nat.lt_succ_self _))

theorem rounds?_eq (m : Matcher) (label : Nat) (greedy : Bool) (k : Cursor → Option β) (x : Cursor) :
    rounds? m label greedy k x
      = if label ∈ x.seen then none
        else if greedy then
          m.first (x.pass label) (rounds? m label greedy k) <|> k (x.pass label)
        else k (x.pass label) <|> m.first (x.pass label) (rounds? m label greedy k) := by
  have step : (m.first (x.pass label) fun y => again m.first label greedy k x.rest.length y)
      = m.first (x.pass label) (rounds? m label greedy k) := by
    apply first_congr
    intro y hy
    apply again_eq_rounds?
    rcases hy with hy | ⟨_, hy⟩
    · exact .inr hy
    · exact .inl (hy (List.mem_cons_self ..))
  conv => lhs; unfold rounds? again
  simp only [step]

/-- The equation of a loop that proofs use, with `rounds?` in place of the bounded `again`. -/
theorem first_plus (label : Nat) (greedy : Bool) (m : Matcher) (x : Cursor)
    (k : Cursor → Option β) :
    (plus label greedy m).first x k = m.first x (rounds? m label greedy k) :=
  first_congr m fun _ hy =>
    again_eq_rounds? m label greedy k
      (.inr (Nat.lt_succ_of_le (Cursor.length_le_of_follows hy)))

end Matcher

end Graft.Regex
