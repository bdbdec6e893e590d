import Graft.Proofs.Grammar.SpelledOut

/-!
# `Graft.Proofs.Grammar.Optionals` — groups and sequences of optional parts

A group reads what the sequence of its parts reads when each of them is made optional
(`Grammar.group_optionals`). Where a part matches, both have the same element; where it does not, the
group leaves a slot empty and the sequence has an empty match, and both go on at the same position. They
take up the same text.

They differ in two ways. A group without a single match is none, and the content of a group runs from
the first to the last part that matched, while that of the sequence also counts the empty matches
around them.
-/

namespace Graft

/-- An empty match at a position. -/
def Element.nothingAt (pos : Nat) : Element :=
  .basic ⟨some ⟨pos, pos, ⟨pos, pos⟩⟩⟩

namespace Recognizer

variable {t : Text} {pos stop : Nat}

/-! ## Optional parts -/

/-- What stands for the slot of a part in a sequence: an empty slot becomes an empty match. -/
def slotItem (pos : Nat) (slot : Option Element) : Element :=
  slot.getD (.nothingAt pos)

/-- The element that `slotItem` makes of a slot stops where the next part of the group starts, filled or
    not. -/
theorem span_stop_slotItem (pos : Nat) (slot : Option Element) :
    (slotItem pos slot).span.stop = (slot.map fun e => e.span.stop).getD pos := by
  cases slot <;> rfl

/-- `optional` always answers at a cut: with what the part answers, or with an empty element. -/
theorem result_optional (hpos : t.isBoundary pos = true) (p : Recognizer) :
    (optional p t pos).result = (p t pos).result.map fun slot => some (slotItem pos slot) := by
  have hle : ¬ t.size < pos := Nat.not_lt_of_le (Text.le_size_of_isBoundary hpos)
  rw [optional, if_neg hle, Traced.result_bind]
  rcases (p t pos).result with halt | _ | e
  · rfl
  · -- an empty match at a cut has a place
    have hfits : Bounds.Fits t ⟨pos, pos, ⟨pos, pos⟩⟩ :=
      ⟨Nat.le_refl _, Nat.le_refl _, Nat.le_refl _, by simp [Bounds.positions, hpos]⟩
    obtain ⟨x, hx⟩ := Extent.exists_ok_ofRange t pos pos ⟨pos, pos⟩
    obtain rfl := Extent.eq_of_ofRange hx hfits
    show (Extent.ofRange t pos pos ⟨pos, pos⟩ >>= _).result = _
    rw [Traced.result_bind, hx]
    rfl
  · rfl

/-! ## Slots next to elements -/

/-- What some parts fill from a position on, as the slots of a group and as the elements of a sequence
    of optional parts. -/
inductive Filled (t : Text) :
    Nat → List Recognizer → List (Option Element) → List Element → Nat → Prop
  | nil {pos : Nat} : Filled t pos [] [] [] pos
  | cons {pos stop : Nat} {p : Recognizer} {ps : List Recognizer} {slot : Option Element}
      {slots : List (Option Element)} {items : List Element} (hp : (p t pos).result = .ok slot)
      (hrest : Filled t (slotItem pos slot).span.stop ps slots items stop) :
      Filled t pos (p :: ps) (slot :: slots) (slotItem pos slot :: items) stop

variable {ps : List Recognizer} {slots : List (Option Element)} {items : List Element}

theorem Filled.length_eq (h : Filled t pos ps slots items stop) :
    slots.length = ps.length ∧ items.length = ps.length := by
  induction h with
  | nil => exact ⟨rfl, rfl⟩
  | cons _ _ ih => exact ⟨congrArg (· + 1) ih.1, congrArg (· + 1) ih.2⟩

/-- The inversion of `Filled` at one part: it was tried where the elements before it end. -/
theorem Filled.slot (h : Filled t pos ps slots items stop) {k : Nat} {p : Recognizer}
    (hk : ps[k]? = some p) :
    ∃ slot, (p t (endOf pos (items.take k))).result = .ok slot ∧ slots[k]? = some slot ∧
      items[k]? = some (slotItem (endOf pos (items.take k)) slot) := by
  induction h generalizing k with
  | nil => cases hk
  | @cons pos _ _ _ slot _ items hp _ ih =>
      cases k with
      | zero =>
          obtain rfl := Option.some.inj hk
          exact ⟨slot, hp, rfl, rfl⟩
      | succ k =>
          have hnext : endOf pos ((slotItem pos slot :: items).take (k + 1))
              = endOf (slotItem pos slot).span.stop (items.take k) := by
            rw [List.take_succ_cons, ← List.singleton_append, endOf_append, endOf_singleton]
          rw [hnext]
          exact ih hk

/-- `runSlots` over the parts and `runAll` over the same parts made `optional` halt together, or are
    `Filled` together. By induction on the parts, at each of which `result_optional` compares the two. -/
theorem exists_filled (hps : ∀ p ∈ ps, Sound p) (hpos : t.isBoundary pos = true) :
    (∃ halt, (runSlots t ps pos).result = .error halt ∧
        (runAll t (ps.map optional) pos).result = .error halt) ∨
      ∃ slots items stop, (runSlots t ps pos).result = .ok (slots, stop) ∧
        (runAll t (ps.map optional) pos).result = .ok (some (items, stop)) ∧
        Filled t pos ps slots items stop := by
  induction ps generalizing pos with
  | nil => exact .inr ⟨[], [], pos, rfl, rfl, .nil⟩
  | cons p ps ih =>
      rw [List.map_cons, runSlots_cons, runAll_cons, result_optional hpos]
      cases hp : (p t pos).result with
      | error halt => exact .inl ⟨halt, rfl, rfl⟩
      | ok slot =>
          have hnext : t.isBoundary (slotItem pos slot).span.stop = true := by
            cases slot with
            | none => exact hpos
            | some e =>
                have hanswer := hps p (List.mem_cons_self ..) t pos _ hp
                exact (sound_of_boundary hanswer hpos).2.placed.span_stop_boundary
          have hrest := ih (fun q hq => hps q (List.mem_cons_of_mem _ hq)) hnext
          show (∃ halt, (runSlots t ps _).result.map _ = .error halt ∧
              (runAll t (ps.map optional) _).result.map _ = .error halt) ∨
            ∃ slots items stop, (runSlots t ps _).result.map _ = .ok (slots, stop) ∧
              (runAll t (ps.map optional) _).result.map _ = .ok (some (items, stop)) ∧ _
          rw [← span_stop_slotItem]
          rcases hrest with ⟨halt, hslots, hitems⟩ | ⟨slots, items, stop, hslots, hitems, hfilled⟩
          · rw [hslots, hitems]
            exact .inl ⟨halt, rfl, rfl⟩
          · rw [hslots, hitems]
            exact .inr ⟨slot :: slots, slotItem pos slot :: items, stop, rfl, rfl, .cons hp hfilled⟩

end Recognizer

namespace Grammar

open Recognizer

/-- **Groups.** A `group` of some parts, and the `sequence` of the same parts made `optional`, at a place
    where the text can be cut. Both halt for the same reason, or the sequence matches, and its elements
    are the slots of the group with `slotItem` for the empty ones. The group matches unless all its slots
    are empty; it takes up what the sequence takes up, from the start of the first slot that is filled to
    the end of the last. -/
theorem group_optionals (g : Grammar) {parts : List Rule} (hparts : parts ≠ []) {t : Text} {pos : Nat}
    (hpos : t.isBoundary pos = true) :
    let group := (g.recognizer (.group parts) t pos).result
    let sequence := (g.recognizer (.join (parts.map .optional)) t pos).result
    (∃ halt, group = .error halt ∧ sequence = .error halt) ∨
      ∃ x items slots, sequence = .ok (some (.join x items)) ∧ x.isValid = true ∧
        slots.length = parts.length ∧ items.length = parts.length ∧
        (∀ k p, parts[k]? = some p →
          let here := endOf pos (items.take k)
          ∃ slot, (g.recognizer p t here).result = .ok slot ∧ slots[k]? = some slot ∧
            items[k]? = some (slot.getD (.nothingAt here))) ∧
        (((∀ slot ∈ slots, slot = none) ∧ group = .ok none) ∨
          ∃ y first last, group = .ok (some (.group y slots)) ∧ y.isValid = true ∧
            (slots.filterMap id).head? = some first ∧ (slots.filterMap id).getLast? = some last ∧
            y.start = first.start ∧ y.stop = last.stop ∧ y.span = x.span) := by
  intro group sequence
  let call : Slot → Recognizer := fun slot => g.recognizer (.forward slot)
  let ps := Rule.recognizers call parts
  have hsound : ∀ p ∈ ps, Sound p := Rule.sound_recognizers (fun slot => g.sound_recognizer _) parts
  have hsound' : ∀ p ∈ ps.map optional, Sound p := by
    intro p hp
    obtain ⟨q, hq, rfl⟩ := List.mem_map.mp hp
    exact sound_optional (hsound q hq)
  have hne : ps.map optional ≠ [] := by simpa [ps, Rule.recognizers_eq_map] using hparts
  have hlength : ps.length = parts.length := by simp [ps, Rule.recognizers_eq_map]
  have hgroup : group = (Recognizer.group ps t pos).result := by
    show (g.recognizer (.group parts) t pos).result = _
    rw [result_recognizer, Rule.recognizer]
  have hsequence : sequence = (join (ps.map optional) t pos).result := by
    have hoptional : Rule.recognizers call (parts.map .optional) = ps.map optional := by
      simp [ps, Rule.recognizers_eq_map, Function.comp_def, Rule.recognizer]
    show (g.recognizer (.join (parts.map .optional)) t pos).result = _
    rw [result_recognizer, Rule.recognizer, hoptional]
  rcases exists_filled hsound hpos with ⟨halt, hslots, hitems⟩ | ⟨slots, items, stop, hslots, hitems, hfilled⟩
  · rw [group_eq, hslots] at hgroup
    rw [join_eq hne, hitems] at hsequence
    exact .inl ⟨halt, hgroup, hsequence⟩
  right
  obtain ⟨x, hjoin, hvalid, hspan⟩ := exists_join_of_runAll hsound' hne hpos hitems
  obtain ⟨hslotsLength, hitemsLength⟩ := hfilled.length_eq
  refine ⟨x, items, slots, hsequence.trans hjoin, hvalid, hslotsLength.trans hlength,
    hitemsLength.trans hlength, ?_, ?_⟩
  · intro k p hk here
    have hpart : ps[k]? = some (p.recognizer call) := by simp [ps, Rule.recognizers_eq_map, hk]
    rw [result_recognizer]
    exact hfilled.slot hpart
  · cases hpresent : slots.filterMap id with
    | nil =>
        have hempty : ∀ slot ∈ slots, slot = none := by
          simpa [List.filterMap_eq_nil_iff] using hpresent
        exact .inl ⟨hempty, hgroup.trans (result_group_of_empty hslots hempty)⟩
    | cons first rest =>
        obtain ⟨last, hlast⟩ : ∃ last, (first :: rest).getLast? = some last :=
          Option.isSome_iff_exists.mp (by simp)
        obtain ⟨y, hfound, hyvalid, hstart, hstop, hyspan⟩ := exists_group_of_runSlots hsound hpos
          hslots (by rw [hpresent]; rfl) (by rw [hpresent, hlast])
        exact .inr ⟨y, first, last, hgroup.trans hfound, hyvalid, rfl, hlast, hstart, hstop,
          hyspan.trans hspan.symm⟩

/-- `group_optionals` where the first part is missing, the second is found behind a blank, and the third
    matches nothing at all. -/
theorem group_optionals_missing : Text.isBoundary ['é', ' ', 'x'] 2 = true ∧
    ∃ x y items slots first,
      (empty.recognizer (.join [.optional (.symbol ['a']), .optional .word, .optional .empty])
        ['é', ' ', 'x'] 2).result = .ok (some (.join x items)) ∧
      (empty.recognizer (.group [.symbol ['a'], .word, .empty]) ['é', ' ', 'x'] 2).result
        = .ok (some (.group y slots)) ∧
      slots[0]? = some none ∧ items[0]? = some (.nothingAt 2) ∧ slots[1]? = some (some first) ∧
      y.span = x.span ∧ y.start = first.start ∧ x.start = 2 ∧ first.start = 3 := by
  have hread : (empty.recognizer (.group [.symbol ['a'], .word, .empty]) ['é', ' ', 'x'] 2).result
      = .ok (some _) := rfl
  have hread' : (empty.recognizer (.join ([.symbol ['a'], .word, .empty].map Rule.optional))
      ['é', ' ', 'x'] 2).result = .ok (some _) := rfl
  have hgroup := @group_optionals empty [.symbol ['a'], .word, .empty] (by simp) ['é', ' ', 'x'] 2 rfl
  rcases hgroup with ⟨halt, h, -⟩ | ⟨x, items, slots, hsequence, -, -, -, hslots, hgroup⟩
  · cases hread.symm.trans h
  rcases hgroup with ⟨-, h⟩ | ⟨y, first, last, h, -, hfirst, -, hstart, -, hspan⟩
  · cases hread.symm.trans h
  obtain ⟨rfl, rfl⟩ := Element.group.inj (Option.some.inj (Except.ok.inj (hread.symm.trans h)))
  obtain ⟨rfl, rfl⟩ := Element.join.inj (Option.some.inj (Except.ok.inj (hread'.symm.trans hsequence)))
  obtain rfl := Option.some.inj hfirst
  exact ⟨rfl, _, _, _, _, _, hsequence, h, rfl, rfl, rfl, hspan, hstart, rfl, rfl⟩

end Grammar

end Graft
