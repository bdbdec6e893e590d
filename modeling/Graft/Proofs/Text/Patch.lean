import Graft.Proofs.Text.Cut

/-!
# `Graft.Proofs.Text.Patch` — texts with some ranges replaced

`Patched t stop pos patches out` says that `out` is the text from `pos` to `stop` with the listed
ranges replaced: the ranges come one after the other, each with its new text or with none where it
stays as it is, and everything between them is kept. It is the yardstick for whatever revises a text:
nothing in it depends on how `out` is made.

A range that stays as it is can be left out of the list (`Patched.changes`), and ranges that lie in
order can always be replaced (`exists_patched`). Texts that are patched up to a position and from there
on can be put together (`Patched.append`). `replace?` puts one text in the place of a range.
-/

namespace Graft.Text

/-- A range of a text, and what is put in its place if it is replaced. -/
abbrev Patch := Span × Option Text

/-- The text from a position to `stop`, with the listed ranges replaced and all else kept. -/
inductive Patched (t : Text) (stop : Nat) : Nat → List Patch → Text → Prop
  | done {pos : Nat} {rest : Text} (hrest : t.slice? pos stop = some rest) :
      Patched t stop pos [] rest
  | patch {pos : Nat} {s : Span} {new : Option Text} {patches : List Patch} {kept old out : Text}
      (hkept : t.slice? pos s.start = some kept) (hold : t.slice? s.start s.stop = some old)
      (hout : Patched t stop s.stop patches out) :
      Patched t stop pos ((s, new) :: patches) (kept ++ (new.getD old ++ out))

variable {t : Text} {stop : Nat}

/-- More text in front is kept by `Patched`. -/
theorem Patched.extend {pos p : Nat} {patches : List Patch} {k out : Text}
    (hk : t.slice? pos p = some k) (h : Patched t stop p patches out) :
    Patched t stop pos patches (k ++ out) := by
  cases h with
  | done hrest => exact .done (slice?_append hk hrest)
  | patch hkept hold hout =>
      rw [← List.append_assoc]
      exact .patch (slice?_append hk hkept) hold hout

/-- Ranges that stay as they are need not be listed. -/
theorem Patched.changes {pos : Nat} {patches : List Patch} {out : Text}
    (h : Patched t stop pos patches out) :
    Patched t stop pos (patches.filter (·.2.isSome)) out := by
  induction h with
  | done hrest => exact .done hrest
  | @patch pos s new patches kept old out hkept hold _ ih =>
      cases new with
      | some r => exact .patch hkept hold ih
      | none =>
          -- the range becomes part of what is kept before the next one
          rw [Option.getD_none, ← List.append_assoc]
          exact ih.extend (slice?_append hkept hold)

/-- `Patched` always has a result for ranges in order and apart, with cuts at their ends. -/
theorem exists_patched {pos : Nat} {patches : List Patch} (hpos : t.isBoundary pos = true)
    (hstop : t.isBoundary stop = true) (hle : pos ≤ stop)
    (hwithin : ∀ p ∈ patches, p.1.Within t pos stop)
    (happart : patches.Pairwise fun p q => p.1.stop ≤ q.1.start) :
    ∃ out, Patched t stop pos patches out := by
  induction patches generalizing pos with
  | nil =>
      obtain ⟨rest, hrest⟩ := exists_slice? hle hpos hstop
      exact ⟨rest, .done hrest⟩
  | cons p patches ih =>
      obtain ⟨s, new⟩ := p
      have hs : s.Within t pos stop := hwithin (s, new) (List.mem_cons_self ..)
      obtain ⟨hfirst, hothers⟩ := List.pairwise_cons.mp happart
      obtain ⟨kept, hkept⟩ := exists_slice? hs.le_start hpos hs.start_boundary
      obtain ⟨old, hold⟩ := exists_slice? hs.start_le_stop hs.start_boundary hs.stop_boundary
      have hlater : ∀ q ∈ patches, q.1.Within t s.stop stop := by
        intro q hq
        have hq' := hwithin q (List.mem_cons_of_mem _ hq)
        exact ⟨hfirst q hq, hq'.start_le_stop, hq'.stop_le, hq'.start_boundary, hq'.stop_boundary⟩
      obtain ⟨out, hout⟩ := ih hs.stop_boundary hs.stop_le hlater hothers
      exact ⟨_, .patch hkept hold hout⟩

/-- The range that `Patched` is about can be cut out of the text. -/
theorem Patched.exists_window {pos : Nat} {patches : List Patch} {out : Text}
    (h : Patched t stop pos patches out) : ∃ window, t.slice? pos stop = some window := by
  induction h with
  | done hrest => exact ⟨_, hrest⟩
  | patch hkept hold _ ih =>
      obtain ⟨rest, hrest⟩ := ih
      exact ⟨_, slice?_append hkept (slice?_append hold hrest)⟩

/-- `Patched` is a function of the patches. -/
theorem Patched.unique {pos : Nat} {patches : List Patch} {out out' : Text}
    (h : Patched t stop pos patches out) (h' : Patched t stop pos patches out') : out = out' := by
  induction h generalizing out' with
  | done hrest =>
      cases h' with
      | done hrest' => exact Option.some.inj (hrest.symm.trans hrest')
  | patch hkept hold _ ih =>
      cases h' with
      | patch hkept' hold' hout' =>
        obtain rfl := Option.some.inj (hkept.symm.trans hkept')
        obtain rfl := Option.some.inj (hold.symm.trans hold')
        rw [ih hout']

/-- `Patched` texts that meet at a position make one. -/
theorem Patched.append {lo mid : Nat} {patches patches' : List Patch} {out out' : Text}
    (h : Patched t mid lo patches out) (h' : Patched t stop mid patches' out') :
    Patched t stop lo (patches ++ patches') (out ++ out') := by
  induction h with
  | done hrest => exact h'.extend hrest
  | @patch pos s new patches kept old out hkept hold _ ih =>
      rw [List.append_assoc, List.append_assoc]
      exact .patch hkept hold ih

/-! ## One replacement -/

/-- `Patched` with all of the range replaced. -/
theorem patched_all {a b : Nat} (hle : a ≤ b) (ha : t.isBoundary a = true)
    (hb : t.isBoundary b = true) (new : Text) : Patched t b a [(⟨a, b⟩, some new)] new := by
  obtain ⟨old, hold⟩ := exists_slice? hle ha hb
  have hall : Patched t b a [(⟨a, b⟩, some new)] ([] ++ (new ++ [])) :=
    .patch (slice?_self ha) hold (.done (slice?_self hb))
  simpa using hall

/-- The text with what stands between two positions replaced, if they are in order and both can be cut
    at. -/
def replace? (t : Text) (start stop : Nat) (new : Text) : Option Text :=
  if start ≤ stop then
    (t.upTo? start).bind fun before => (t.from? stop).map fun after => before ++ (new ++ after)
  else none

theorem replace?_append (before old new after : Text) :
    (before ++ (old ++ after)).replace? before.size (before.size + old.size) new
      = some (before ++ (new ++ after)) := by
  have hafter : from? (before ++ (old ++ after)) (before.size + old.size) = some after := by
    have := from?_size_append (before ++ old) after
    simpa using this
  rw [replace?, if_pos (Nat.le_add_right _ _), upTo?_size_append, hafter]
  rfl

end Graft.Text
