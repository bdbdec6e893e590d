import Graft.Proofs.Regex.Preferred

/-!
# `Graft.Proofs.Regex.Spells` — what walks go over

An expression spells a language when every walk through it goes over a text of that language
(`Matcher.Spells`). What an expression spells is put together from what its parts spell. This holds of
all walks, not just of the preferred one: what a match found is known to be of the language without
knowing which walk was taken.
-/

namespace Graft.Regex.Matcher

open Cursor (Reads)

/-- Every walk through the expression goes over a text of the language. No group is noted on the way. -/
def Spells (m : Matcher) (L : Text → Prop) : Prop :=
  ∀ ⦃x y : Cursor⦄, y ∈ m.paths x → ∃ s, L s ∧ x.Reads s y

variable {m a b : Matcher} {L A B : Text → Prop} {x y : Cursor}

theorem Spells.mono (h : m.Spells A) (hsub : ∀ s, A s → B s) : m.Spells B := by
  intro x y hy
  obtain ⟨s, hs, hread⟩ := h hy
  exact ⟨s, hsub s hs, hread⟩

/-- A set `Spells` its characters. -/
theorem spells_set (s : CharSet) : (set s).Spells fun u => ∃ c, s.contains c = true ∧ u = [c] := by
  intro x y hy
  obtain ⟨c, hc, hread⟩ := exists_reads_of_consume? (by simpa [paths] using hy)
  exact ⟨[c], ⟨c, hc, rfl⟩, hread⟩

/-- Languages are put together as expressions are. -/
theorem Spells.seq (h : a.Spells A) (h' : b.Spells B) :
    (seq a b).Spells fun s => ∃ u v, A u ∧ B v ∧ s = u ++ v := by
  intro x y hy
  obtain ⟨z, hz, hy⟩ := List.mem_flatMap.mp hy
  obtain ⟨u, hu, hread⟩ := h hz
  obtain ⟨v, hv, hread'⟩ := h' hy
  exact ⟨u ++ v, ⟨u, v, hu, hv, rfl⟩, hread.trans hread'⟩

/-- Texts of a language one after the other, perhaps none. -/
def Repeated (L : Text → Prop) (s : Text) : Prop :=
  ∃ pieces : List Text, (∀ p ∈ pieces, L p) ∧ s = pieces.flatten

theorem Repeated.cons {u s : Text} (hu : L u) (h : Repeated L s) : Repeated L (u ++ s) := by
  obtain ⟨pieces, hpieces, rfl⟩ := h
  exact ⟨u :: pieces, List.forall_mem_cons.mpr ⟨hu, hpieces⟩, rfl⟩

/-- A loop reads texts of `Repeated`, if its rounds `Spells` the language. -/
theorem Spells.againPaths (h : m.Spells L) {label bound : Nat} {greedy : Bool}
    (hy : y ∈ againPaths m.paths label greedy bound x) : ∃ s, Repeated L s ∧ x.Reads s y := by
  induction bound generalizing x with
  | zero => simp [Matcher.againPaths] at hy
  | succ bound ih =>
      have hpass := Cursor.reads_pass x label
      rcases mem_againPaths_succ hy with ⟨z, hz, hy⟩ | rfl
      · obtain ⟨u, hu, hread⟩ := h hz
        obtain ⟨s, hs, hread'⟩ := ih hy
        exact ⟨u ++ s, hs.cons hu, hpass.trans (hread.trans hread')⟩
      · exact ⟨[], ⟨[], by simp, rfl⟩, hpass⟩

/-- A loop `Spells` what is `Repeated`. -/
theorem Spells.looped (h : m.Spells L) (label : Nat) : (looped label m).Spells (Repeated L) := by
  intro x y hy
  have hpass := Cursor.reads_pass x label
  simp only [Matcher.looped, paths] at hy
  split at hy
  · cases hy
  rcases List.mem_append.mp hy with hy | hy
  · obtain ⟨z, hz, hy⟩ := List.mem_flatMap.mp hy
    obtain ⟨u, hu, hread⟩ := h hz
    obtain ⟨s, hs, hread'⟩ := h.againPaths hy
    exact ⟨u ++ s, hs.cons hu, hpass.trans (hread.trans hread')⟩
  · obtain rfl := List.mem_singleton.mp hy
    exact ⟨[], ⟨[], by simp, rfl⟩, hpass⟩

/-- A loop over a set `Spells` the texts of its characters. -/
theorem spells_looped_set (s : CharSet) (label : Nat) :
    (Matcher.looped label (set s)).Spells fun u => ∀ c ∈ u, s.contains c = true := by
  apply ((spells_set s).looped label).mono
  rintro u ⟨pieces, hpieces, rfl⟩ c hc
  obtain ⟨p, hp, hmem⟩ := List.mem_flatten.mp hc
  obtain ⟨d, hd, rfl⟩ := hpieces p hp
  obtain rfl := List.mem_singleton.mp hmem
  exact hd

end Graft.Regex.Matcher
