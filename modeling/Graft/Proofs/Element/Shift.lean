import Graft.Proofs.Element.Placed

/-!
# `Graft.Proofs.Element.Shift` — elements moved along a text

A text that is read from position `n` on can also be read on its own. What is found there has the same
shape, and every position in it is `n` less. `Element.shift n` moves an element the other way, at every
depth. Elements without a place in the text have no positions to be moved.

Positions that fit the rest of a text fit the text once they are moved (`Bounds.fits_shift_iff`), so
that building an extent from moved positions gives the moved extent (`Extent.result_ofRange_shift`).
-/

namespace Graft

/-! ## Moving -/

/-- The span `n` positions further on. -/
def Span.shift (n : Nat) (s : Span) : Span :=
  ⟨n + s.start, n + s.stop⟩

/-- The bounds `n` positions further on. -/
def Bounds.shift (n : Nat) (b : Bounds) : Bounds :=
  ⟨n + b.start, n + b.stop, b.span.shift n⟩

/-- The extent `n` positions further on. -/
def Extent.shift (n : Nat) (e : Extent) : Extent :=
  ⟨e.bounds?.map (·.shift n)⟩

namespace Element

mutual

/-- The element `n` positions further on, with everything in it. -/
def shift (n : Nat) : Element → Element
  | basic e => basic (e.shift n)
  | symbol e => symbol (e.shift n)
  | word e => word (e.shift n)
  | dottedWord e => dottedWord (e.shift n)
  | string e inner raw => string (e.shift n) (inner.shift n) raw
  | number e integer fraction => number (e.shift n) integer fraction
  | bool e value => bool (e.shift n) value
  | join e items => join (e.shift n) (shiftAll n items)
  | list e items trailing => list (e.shift n) (shiftAll n items) trailing
  | group e slots => group (e.shift n) (shiftSlots n slots)
  | typeName e name => typeName (e.shift n) (name.shift n)
  | genericName e name arguments items trailing =>
      genericName (e.shift n) (name.shift n) (arguments.shift n) (shiftAll n items) trailing

/-- Some elements, `n` positions further on. -/
def shiftAll (n : Nat) : List Element → List Element
  | [] => []
  | e :: rest => shift n e :: shiftAll n rest

/-- Some slots, with what fills them `n` positions further on. -/
def shiftSlots (n : Nat) : List (Option Element) → List (Option Element)
  | [] => []
  | slot :: rest => shiftSlot n slot :: shiftSlots n rest

/-- A slot, with what fills it `n` positions further on. -/
def shiftSlot (n : Nat) : Option Element → Option Element
  | none => none
  | some e => some (shift n e)

end

end Element

/-! ## What moving does to the parts -/

theorem Span.shift_shift (m n : Nat) (s : Span) : (s.shift m).shift n = s.shift (n + m) := by
  simp only [shift, Nat.add_assoc]

namespace Extent

variable {n : Nat} {e : Extent}

theorem shift_shift (m n : Nat) (e : Extent) : (e.shift m).shift n = e.shift (n + m) := by
  obtain ⟨_ | b⟩ := e
  · rfl
  · simp only [shift, Option.map_some, Bounds.shift, Span.shift_shift, Nat.add_assoc]

@[simp] theorem shift_invalid (n : Nat) : invalid.shift n = invalid := rfl

theorem exists_bounds (h : e.isValid = true) : ∃ b, e = ⟨some b⟩ := by
  obtain ⟨_ | b⟩ := e
  · cases h
  · exact ⟨b, rfl⟩

theorem start_shift (h : e.isValid = true) : (e.shift n).start = n + e.start := by
  obtain ⟨b, rfl⟩ := exists_bounds h
  rfl

theorem stop_shift (h : e.isValid = true) : (e.shift n).stop = n + e.stop := by
  obtain ⟨b, rfl⟩ := exists_bounds h
  rfl

theorem span_shift (h : e.isValid = true) : (e.shift n).span = e.span.shift n := by
  obtain ⟨b, rfl⟩ := exists_bounds h
  rfl

end Extent

namespace Element

variable {n : Nat} {e : Element}

theorem shiftAll_eq_map (n : Nat) (items : List Element) : shiftAll n items = items.map (shift n) := by
  induction items with
  | nil => rw [shiftAll, List.map_nil]
  | cons e rest ih => rw [shiftAll, List.map_cons, ih]

theorem shiftSlots_eq_map (n : Nat) (slots : List (Option Element)) :
    shiftSlots n slots = slots.map (Option.map (shift n)) := by
  induction slots with
  | nil => rw [shiftSlots, List.map_nil]
  | cons slot rest ih =>
      rw [shiftSlots, List.map_cons, ih]
      cases slot <;> rw [shiftSlot] <;> rfl

theorem extent_shift (n : Nat) (e : Element) : (e.shift n).extent = e.extent.shift n := by
  cases e <;> rw [shift] <;> rfl

theorem start_shift (h : e.isValid = true) : (e.shift n).start = n + e.start := by
  rw [start, extent_shift]
  exact Extent.start_shift h

theorem stop_shift (h : e.isValid = true) : (e.shift n).stop = n + e.stop := by
  rw [stop, extent_shift]
  exact Extent.stop_shift h

theorem span_shift (h : e.isValid = true) : (e.shift n).span = e.span.shift n := by
  rw [span, extent_shift]
  exact Extent.span_shift h

mutual

/-- Moving twice by `shift` is moving once, by both distances. By the constructors of `Element`, with the
    lists of parts in `shiftAll_shiftAll` and `shiftSlots_shiftSlots`. -/
theorem shift_shift (m n : Nat) : ∀ e : Element, (e.shift m).shift n = e.shift (n + m)
  | basic e | symbol e | word e | dottedWord e | bool e _ | number e _ _ => by
      simp only [shift, Extent.shift_shift]
  | string e inner _ => by simp only [shift, Extent.shift_shift, Span.shift_shift]
  | join e items | list e items _ => by
      simp only [shift, Extent.shift_shift, shiftAll_shiftAll m n items]
  | group e slots => by simp only [shift, Extent.shift_shift, shiftSlots_shiftSlots m n slots]
  | typeName e name => by simp only [shift, Extent.shift_shift]
  | genericName e name arguments items _ => by
      simp only [shift, Extent.shift_shift, shiftAll_shiftAll m n items]

theorem shiftAll_shiftAll (m n : Nat) :
    ∀ items : List Element, shiftAll n (shiftAll m items) = shiftAll (n + m) items
  | [] => by simp only [shiftAll]
  | e :: rest => by simp only [shiftAll, shift_shift m n e, shiftAll_shiftAll m n rest]

theorem shiftSlots_shiftSlots (m n : Nat) :
    ∀ slots : List (Option Element), shiftSlots n (shiftSlots m slots) = shiftSlots (n + m) slots
  | [] => by simp only [shiftSlots]
  | none :: rest => by simp only [shiftSlots, shiftSlot, shiftSlots_shiftSlots m n rest]
  | some e :: rest => by
      simp only [shiftSlots, shiftSlot, shift_shift m n e, shiftSlots_shiftSlots m n rest]

end

end Element

/-! ## Places in a text and in the rest of it -/

variable {t rest : Text} {pos : Nat}

theorem Text.size_of_from? (h : t.from? pos = some rest) : t.size = pos + rest.size := by
  obtain ⟨s, rfl, rfl⟩ := exists_of_from? h
  exact size_append s rest

theorem Text.ahead_of_from? (h : t.from? pos = some rest) : t.ahead pos = rest := by
  rw [ahead, h]
  rfl

/-- Slices of the rest of a text are slices of the text, moved. -/
theorem Text.slice?_shift (h : t.from? pos = some rest) (a b : Nat) :
    t.slice? (pos + a) (pos + b) = rest.slice? a b := by
  rw [slice?, slice?, from?_add h, Nat.add_sub_add_left]
  by_cases hle : a ≤ b
  · rw [if_pos hle, if_pos (Nat.add_le_add_left hle pos)]
  · rw [if_neg hle, if_neg (by omega)]

theorem Bounds.fits_shift_iff (h : t.from? pos = some rest) {b : Bounds} :
    (b.shift pos).Fits t ↔ b.Fits rest := by
  have hboundary : (∀ p ∈ (b.shift pos).positions, t.isBoundary p = true) ↔
      ∀ p ∈ b.positions, rest.isBoundary p = true := by
    simp only [positions, shift, Span.shift, List.forall_mem_cons, Text.isBoundary_add h]
    simp
  constructor
  · rintro ⟨hstart, hle, hstop, hb⟩
    simp only [shift, Span.shift] at hstart hle hstop
    exact ⟨by omega, by omega, by omega, hboundary.mp hb⟩
  · rintro ⟨hstart, hle, hstop, hb⟩
    exact ⟨Nat.add_le_add_left hstart pos, Nat.add_le_add_left hle pos,
      Nat.add_le_add_left hstop pos, hboundary.mpr hb⟩

namespace Extent

/-- Both outcomes of `ofRange`, told by `Fits`. -/
theorem result_ofRange (t : Text) (start stop : Nat) (span : Span) :
    (Bounds.Fits t ⟨start, stop, span⟩ ∧
        (ofRange t start stop span).result = .ok ⟨some ⟨start, stop, span⟩⟩) ∨
      (¬ Bounds.Fits t ⟨start, stop, span⟩ ∧ (ofRange t start stop span).result = .ok invalid) := by
  unfold ofRange
  cases hcheck : Bounds.check t start stop span with
  | ok b =>
      obtain ⟨rfl, hfits⟩ := Bounds.check_eq_ok_iff.mp hcheck
      exact .inl ⟨hfits, rfl⟩
  | error reason =>
      refine .inr ⟨fun hfits => ?_, rfl⟩
      rw [Bounds.check_eq_ok_iff.mpr ⟨rfl, hfits⟩] at hcheck
      cases hcheck

/-- `ofRange` halts at nothing. -/
theorem exists_ok_ofRange (t : Text) (start stop : Nat) (span : Span) :
    ∃ x, (ofRange t start stop span).result = .ok x := by
  rcases result_ofRange t start stop span with ⟨-, hx⟩ | ⟨-, hx⟩
  · exact ⟨_, hx⟩
  · exact ⟨_, hx⟩

/-- `ofRange` commutes with `shift`: positions in the rest of a text make what the moved positions make in
    the text, by `Bounds.fits_shift_iff`. -/
theorem result_ofRange_shift (h : t.from? pos = some rest) (start stop : Nat) (span : Span) :
    (ofRange t (pos + start) (pos + stop) (span.shift pos)).result
      = (ofRange rest start stop span).result.map (shift pos) := by
  have hiff := Bounds.fits_shift_iff h (b := ⟨start, stop, span⟩)
  rcases result_ofRange t (pos + start) (pos + stop) (span.shift pos) with ⟨hfits, hx⟩ | ⟨hfits, hx⟩ <;>
    rcases result_ofRange rest start stop span with ⟨hfits', hx'⟩ | ⟨hfits', hx'⟩
  · rw [hx, hx']
    rfl
  · exact absurd (hiff.mp hfits) hfits'
  · exact absurd (hiff.mpr hfits') hfits
  · rw [hx, hx']
    rfl

/-- An extent moved by `shift` has the content that it has in the rest of the text. -/
theorem content?_shift (h : t.from? pos = some rest) (e : Extent) :
    (e.shift pos).content? t = e.content? rest := by
  obtain ⟨_ | b⟩ := e
  · rfl
  · exact Text.slice?_shift h b.start b.stop

end Extent

end Graft
