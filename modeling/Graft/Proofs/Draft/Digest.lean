import Graft.Proofs.Draft.Coherent
import Graft.Proofs.Text.Patch

/-!
# `Graft.Proofs.Draft.Digest` — the digest carries out every accepted edit

The accepted edits of a coherent draft form a chain once they are put in order: each ends before the
next one starts (`Coherent.pairwise_inOrder`). Along such a chain the single pass of `splice?` never
meets a stretch that cannot be cut out, and what it makes is the window with the edits carried out,
all else kept (`digest?_patched`).

The main result compares the pass with the plain way of doing it: to replace one range after the other
in the text itself, from the last edit to the first, so that no replacement moves a range that is
still to be replaced (`digest?_eq_carryOut?`).
-/

namespace Graft

open Text (Patched)

/-- What an edit does to a text: its range gets a new text. -/
def Edit.patch (e : Edit) : Text.Patch :=
  (e.span, some e.replacement)

/-- Edits carried out one at a time on a window that starts at position `base`, the last one first. -/
def Edit.carryOut? (base : Nat) (window : Text) (edits : List Edit) : Option Text :=
  edits.foldr
    (fun e text => text.bind (·.replace? (e.start - base) (e.stop - base) e.replacement))
    (some window)

namespace Draft

variable {t : Text} {stop : Nat}

/-! ## The chain of accepted edits -/

theorem Coherent.within_inOrder {d : Draft} (h : d.Coherent) {e : Edit}
    (he : e ∈ Edit.inOrder d.edits) : e.span.Within d.text d.scope.start d.scope.stop :=
  h.within e ((Edit.ordered_inOrder d.edits).perm.mem_iff.mp he)

/-- The accepted edits of a `Coherent` draft, put `inOrder`, form a chain: by `Edit.stop_le_start` edits
    that do not conflict are apart as soon as they are in order. -/
theorem Coherent.pairwise_inOrder {d : Draft} (h : d.Coherent) :
    (Edit.inOrder d.edits).Pairwise fun a b => a.stop ≤ b.start := by
  have hordered := Edit.ordered_inOrder d.edits
  have hapart : (Edit.inOrder d.edits).Pairwise (¬ ·.conflictsWith · = true) := by
    refine hordered.perm.symm.pairwise h.apart fun {a b} hab => ?_
    rwa [Edit.conflictsWith_comm]
  refine (hordered.1.and hapart).imp_of_mem fun {a b} _ hb hab => ?_
  exact Edit.stop_le_start hab.1 hab.2 (h.within_inOrder hb).start_le_stop

/-! ## One pass -/

/-- Where a chain of edits makes `out` by `Patched`, so does `splice?`: its cursor is always at the end of
    the last edit, so no `max` and no stretch between edits gets in the way. -/
theorem splice?_of_patched {pos : Nat} {edits : List Edit} {out : Text}
    (h : Patched t stop pos (edits.map Edit.patch) out) : splice? t stop pos edits = some out := by
  induction edits generalizing pos out with
  | nil =>
      cases h with
      | done hrest =>
        unfold splice?
        split
        · exact hrest
        next hge =>
          obtain ⟨hle, -, hb⟩ := Text.isSome_slice?_iff.mp (Option.isSome_of_eq_some hrest)
          obtain rfl : pos = stop := by omega
          rwa [Text.slice?_self hb] at hrest
  | cons e rest ih =>
      cases h with
      | @patch _ _ _ _ kept old out hkept hold hout =>
        have hpos : pos + kept.size = e.start := Text.size_of_slice? hkept
        have hstop : e.start + old.size = e.stop := Text.size_of_slice? hold
        -- along a chain the pass never has to go back
        have hmax : max pos e.stop = e.stop := by omega
        have hrest : splice? t stop (max pos e.stop) rest = some out := by
          rw [hmax]
          exact ih hout
        have hkept' : t.slice? pos e.start = some kept := hkept
        -- edits that touch leave nothing to be kept between them
        by_cases hlt : pos < e.start
        · simp [splice?, hlt, hkept', hrest]
        · have hnil : kept = [] := Text.size_eq_zero_iff.mp (by omega)
          simp [splice?, hlt, hnil, hrest]

/-- `digest?` of a `Coherent` draft exists and is the `Patched` window, by `splice?_of_patched` along the
    chain of `Coherent.pairwise_inOrder`. -/
theorem digest?_patched {d : Draft} (h : d.Coherent) :
    ∃ out, d.digest? = some out ∧
      Patched d.text d.scope.stop d.scope.start ((Edit.inOrder d.edits).map Edit.patch) out := by
  have hwithin : ∀ p ∈ (Edit.inOrder d.edits).map Edit.patch,
      p.1.Within d.text d.scope.start d.scope.stop := by
    intro p hp
    obtain ⟨e, he, rfl⟩ := List.mem_map.mp hp
    exact h.within_inOrder he
  obtain ⟨out, hout⟩ := Text.exists_patched h.scope_start_boundary h.scope_stop_boundary h.scope_le
    hwithin (List.pairwise_map.mpr h.pairwise_inOrder)
  exact ⟨out, splice?_of_patched hout, hout⟩

/-! ## One edit at a time -/

/-- What `splice?` makes from left to right, `Edit.carryOut?` makes from right to left. The text `before`
    in front of the cursor is carried along unchanged; it is what the induction over the chain needs. -/
theorem carryOut?_of_patched {pos base : Nat} {edits : List Edit} {before after out : Text}
    (h : Patched t stop pos (edits.map Edit.patch) out) (hbefore : t.slice? base pos = some before)
    (hafter : t.slice? pos stop = some after) :
    Edit.carryOut? base (before ++ after) edits = some (before ++ out) := by
  induction edits generalizing pos before after out with
  | nil =>
      cases h with
      | done hrest => rw [Option.some.inj (hrest.symm.trans hafter)]; rfl
  | cons e rest ih =>
      cases h with
      | @patch _ _ _ _ kept old out hkept hold hout =>
        obtain ⟨tail, htail⟩ := hout.exists_window
        obtain rfl : after = kept ++ (old ++ tail) :=
          Option.some.inj (hafter.symm.trans (Text.slice?_append hkept (Text.slice?_append hold htail)))
        have hleft := Text.slice?_append hbefore hkept
        have hstart : base + (before ++ kept).size = e.start := Text.size_of_slice? hleft
        have hstop : e.start + old.size = e.stop := Text.size_of_slice? hold
        -- the later edits leave everything up to the end of this one alone
        have hrest := ih hout (Text.slice?_append hleft hold) htail
        have hwindow : before ++ (kept ++ (old ++ tail)) = ((before ++ kept) ++ old) ++ tail := by
          simp
        rw [Edit.carryOut?] at hrest ⊢
        rw [List.foldr_cons, hwindow, hrest, Option.bind_some,
          show e.start - base = (before ++ kept).size by omega,
          show e.stop - base = (before ++ kept).size + old.size by omega, List.append_assoc,
          Text.replace?_append]
        simp

/-- **The digest.** One pass of `digest?` comes to the same as `Edit.carryOut?`, which replaces one range
    after the other in the window itself, from the last edit to the first. It always exists. Both are told
    by the `Patched` window. -/
theorem digest?_eq_carryOut? (t : Text) (start stop : Nat) (edits : List Edit) :
    let d := (ofWindow t start stop).submitAll edits
    ∃ sorted window out, Edit.Ordered d.edits sorted ∧
      t.slice? d.scope.start d.scope.stop = some window ∧
      d.digest? = some out ∧ Edit.carryOut? d.scope.start window sorted = some out := by
  intro d
  have hd : d.Coherent := (coherent_ofWindow t start stop).submitAll edits
  have ht : d.text = t := text_submitAll _ edits
  obtain ⟨out, hout, hpatched⟩ := digest?_patched hd
  obtain ⟨window, hwindow⟩ := hpatched.exists_window
  refine ⟨Edit.inOrder d.edits, window, out, Edit.ordered_inOrder d.edits, ht ▸ hwindow, hout, ?_⟩
  exact carryOut?_of_patched hpatched (Text.slice?_self hd.scope_start_boundary) hwindow

end Draft

end Graft
