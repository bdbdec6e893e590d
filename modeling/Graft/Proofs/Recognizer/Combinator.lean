import Graft.Proofs.Element.Shift
import Graft.Proofs.Recognizer.Sound
import Graft.Recognizer.Combinator

/-!
# `Graft.Proofs.Recognizer.Combinator` — combinators keep to the rule of their parts

Combinators of sound recognisers are sound. Where the text can be cut, each part starts where the
element before it ended, so that the elements make a row, and the row holds up the element around it.

Inside a character the first part that answers gives an element without a place in the text, which
reports zero for every position. The parts after it then start from the beginning of the text, and may
well match there. What they find is of no use: the element around them starts inside the character, and
no such element has a place in the text.
-/

namespace Graft

namespace Recognizer

variable {t : Text} {pos : Nat}

/-- Both `join` and `list` make an element from the start of the first of its parts to the end of the
    last. It `Answers` fairly where the parts are a `Row` that starts at the position. -/
theorem answers_of_ends {stop : Nat} {x : Extent} {e first last : Element}
    (hx : (Extent.ofRange t first.start last.stop ⟨pos, stop⟩).result = .ok x)
    (hpos : t.isBoundary pos = true) (hextent : e.extent = x) (hrow : Element.Row t pos e.parts stop)
    (hfirst : e.parts.head? = some first) (hlast : e.parts.getLast? = some last) :
    Answers t pos (some e) := by
  obtain ⟨hstart, horder, hstop, hfrom, hto⟩ := hrow.ends hfirst hlast
  have hfits : Bounds.Fits t ⟨first.start, last.stop, ⟨pos, stop⟩⟩ := by
    refine ⟨hstart, horder, hstop, ?_⟩
    simp [Bounds.positions, hpos, hfrom, hto, hrow.stop_boundary]
  exact answers_of_row hx hfits hpos (Nat.le_refl _) hextent hrow (Nat.le_refl _) (Nat.le_refl _)

/-! ## Sequences -/

theorem runAll_cons (p : Recognizer) (parts : List Recognizer) :
    (runAll t (p :: parts) pos).result
      = (p t pos).result.bind fun
        | none => .ok none
        | some e =>
            (runAll t parts e.span.stop).result.map (Option.map fun run => (e :: run.1, run.2)) := by
  rw [runAll, Traced.result_bind]
  rcases (p t pos).result with halt | _ | e
  · rfl
  · rfl
  · show (runAll t parts e.span.stop >>= _).result = (runAll t parts e.span.stop).result.map _
    rw [Traced.result_bind]
    rcases (runAll t parts e.span.stop).result with halt | _ | run <;> rfl

theorem runAll_singleton (p : Recognizer) :
    (runAll t [p] pos).result
      = (p t pos).result.map (Option.map fun e => ([e], e.span.stop)) := by
  rw [runAll_cons]
  rcases (p t pos).result with halt | _ | e <;> rfl

theorem runAll_append (parts others : List Recognizer) :
    (runAll t (parts ++ others) pos).result
      = (runAll t parts pos).result.bind fun
        | none => .ok none
        | some (items, stop) =>
            (runAll t others stop).result.map (Option.map fun run => (items ++ run.1, run.2)) := by
  induction parts generalizing pos with
  | nil =>
      rw [List.nil_append]
      show _ = (runAll t others pos).result.map _
      rcases (runAll t others pos).result with halt | _ | run <;> rfl
  | cons p parts ih =>
      rw [List.cons_append, runAll_cons, runAll_cons]
      rcases (p t pos).result with halt | _ | e
      · rfl
      · rfl
      · show (runAll t (parts ++ others) e.span.stop).result.map _
          = ((runAll t parts e.span.stop).result.map _).bind _
        rw [ih]
        rcases (runAll t parts e.span.stop).result with halt | _ | ⟨items, stop⟩
        · rfl
        · rfl
        · show ((runAll t others stop).result.map _).map _ = (runAll t others stop).result.map _
          rcases (runAll t others stop).result with halt | _ | run <;> rfl

/-- Reading an extent off items cannot halt, like `Extent.ofRange` itself. -/
theorem exists_ok_ofItems (t : Text) (items : List Element) (span : Span) :
    ∃ x, (Extent.ofItems t items span).result = .ok x := by
  unfold Extent.ofItems
  split
  · exact Extent.exists_ok_ofRange ..
  · exact ⟨_, rfl⟩

/-- The inversion of `Extent.ofItems`: a valid extent runs from the first item to the last. -/
theorem exists_of_ofItems {items : List Element} {span : Span} {x : Extent}
    (hx : (Extent.ofItems t items span).result = .ok x) (hvalid : x.isValid = true) :
    ∃ first last, items.head? = some first ∧ items.getLast? = some last ∧
      x = ⟨some ⟨first.start, last.stop, span⟩⟩ := by
  unfold Extent.ofItems at hx
  split at hx
  next first last hfirst hlast =>
    exact ⟨first, last, hfirst, hlast, Extent.eq_of_ofRange_of_isValid hx hvalid⟩
  · obtain rfl := Except.ok.inj hx
    cases hvalid

theorem join_eq {parts : List Recognizer} (hparts : parts ≠ []) :
    (join parts t pos).result
      = (runAll t parts pos).result.bind fun
        | none => .ok none
        | some (items, stop) =>
            (Extent.ofItems t items ⟨pos, stop⟩).result.map fun x => some (.join x items) := by
  have hsome : parts.isEmpty = false := by simpa using hparts
  rw [join, hsome, if_neg Bool.false_ne_true, Traced.result_bind]
  rcases (runAll t parts pos).result with halt | _ | ⟨items, stop⟩
  · rfl
  · rfl
  · show (Element.ofJoin t items ⟨pos, stop⟩ >>= _).result = (Extent.ofItems t items _).result.map _
    rw [Traced.result_bind, Element.ofJoin, Traced.result_bind]
    cases (Extent.ofItems t items ⟨pos, stop⟩).result <;> rfl

theorem exists_of_runAll_cons {p : Recognizer} {parts : List Recognizer} {items : List Element}
    {stop : Nat} (h : (runAll t (p :: parts) pos).result = .ok (some (items, stop))) :
    ∃ e rest, items = e :: rest ∧ (p t pos).result = .ok (some e) ∧
      (runAll t parts e.span.stop).result = .ok (some (rest, stop)) := by
  obtain ⟨found, hfound, h⟩ := Traced.result_bind_eq_ok_iff.mp h
  cases found with
  | none => cases h
  | some e =>
      obtain ⟨run, hrun, h⟩ := Traced.result_bind_eq_ok_iff.mp h
      cases run with
      | none => cases h
      | some run =>
          obtain ⟨rest, last⟩ := run
          obtain ⟨rfl, rfl⟩ := Prod.mk.inj (Option.some.inj (Except.ok.inj h))
          exact ⟨e, rest, rfl, hfound, hrun⟩

/-- `runAll` halts with its first part, or behind what that answered. -/
theorem error_of_runAll_cons {p : Recognizer} {parts : List Recognizer} {halt : Halt}
    (h : (runAll t (p :: parts) pos).result = .error halt) :
    (p t pos).result = .error halt ∨
      ∃ e, (p t pos).result = .ok (some e) ∧ (runAll t parts e.span.stop).result = .error halt := by
  rcases Traced.result_bind_eq_error_iff.mp h with h | ⟨found, hfound, h⟩
  · exact .inl h
  cases found with
  | none => cases h
  | some e =>
      right
      refine ⟨e, hfound, ?_⟩
      rcases Traced.result_bind_eq_error_iff.mp h with h | ⟨run, -, h⟩
      · exact h
      · rcases run with _ | ⟨items, stop⟩ <;> cases h

/-- `join` halts only while it runs its parts: `Extent.ofItems` always has a result. -/
theorem error_of_join {parts : List Recognizer} {halt : Halt}
    (h : (join parts t pos).result = .error halt) : (runAll t parts pos).result = .error halt := by
  unfold join at h
  split at h
  · cases h
  rcases Traced.result_bind_eq_error_iff.mp h with h | ⟨run, -, h⟩
  · exact h
  rcases run with _ | ⟨items, stop⟩
  · cases h
  rcases Traced.result_bind_eq_error_iff.mp h with h | ⟨j, -, h⟩
  · rcases Traced.result_bind_eq_error_iff.mp h with h | ⟨x, -, h⟩
    · -- the element itself is always made
      obtain ⟨x, hx⟩ := exists_ok_ofItems t items ⟨pos, stop⟩
      cases hx.symm.trans h
    · cases h
  · cases h

/-- At a cut of the text, what `runAll` reads is a `Row`. -/
theorem row_of_runAll {parts : List Recognizer} {items : List Element} {stop : Nat}
    (hparts : ∀ p ∈ parts, Sound p) (hpos : t.isBoundary pos = true)
    (h : (runAll t parts pos).result = .ok (some (items, stop))) : Element.Row t pos items stop := by
  induction parts generalizing pos items with
  | nil =>
      obtain ⟨rfl, rfl⟩ := Prod.mk.inj (Option.some.inj (Except.ok.inj h))
      exact .nil hpos
  | cons p parts ih =>
      obtain ⟨e, rest, rfl, he, hrest⟩ := exists_of_runAll_cons h
      have hanswer := hparts p (List.mem_cons_self ..) t pos _ he
      obtain ⟨hle, hsound⟩ := sound_of_boundary hanswer hpos
      have hstop := hsound.placed.span_stop_boundary
      exact .cons hle hsound (ih (fun q hq => hparts q (List.mem_cons_of_mem _ hq)) hstop hrest)

theorem exists_of_ofJoin {items : List Element} {span : Span} {e : Element}
    (h : (Element.ofJoin t items span).result = .ok e) :
    ∃ x, (Extent.ofItems t items span).result = .ok x ∧ e = .join x items := by
  obtain ⟨x, hx, h⟩ := Traced.result_bind_eq_ok_iff.mp h
  exact ⟨x, hx, (Except.ok.inj h).symm⟩

/-- Sequences are `Sound`, by induction on the parts. -/
theorem sound_join {parts : List Recognizer} (hparts : ∀ p ∈ parts, Sound p) :
    Sound (join parts) := by
  intro t pos ans h
  cases parts with
  | nil => exact answers_none h
  | cons p parts =>
      obtain ⟨run, hrun, h⟩ := Traced.result_bind_eq_ok_iff.mp h
      cases run with
      | none => exact answers_none h
      | some run =>
          obtain ⟨items, stop⟩ := run
          obtain ⟨j, hj, h⟩ := Traced.result_bind_eq_ok_iff.mp h
          obtain rfl := Except.ok.inj h
          obtain ⟨x, hx, rfl⟩ := exists_of_ofJoin hj
          obtain ⟨first, rest, rfl, hfirst, -⟩ := exists_of_runAll_cons hrun
          have hanswer := hparts p (List.mem_cons_self ..) t pos _ hfirst
          obtain ⟨last, hlast⟩ : ∃ last, (first :: rest).getLast? = some last :=
            Option.isSome_iff_exists.mp (by simp)
          rw [Extent.ofItems, hlast] at hx
          by_cases hpos : t.isBoundary pos = true
          · exact answers_of_ends hx hpos rfl (row_of_runAll hparts hpos hrun) rfl hlast
          · -- only the first element is known; the others may have been found anywhere
            have hinside : t.isBoundary pos = false := by simpa using hpos
            have hmis := misplaced_of_inside hanswer hinside
            refine .misplaced (le_size_of_some hanswer) hinside
              ⟨eq_invalid_of_inside hx hinside, rfl, ?_⟩
            rintro x items ⟨⟩
            exact ⟨first, rest, rfl, hmis.not_name⟩

/-- At a cut of the text `join` makes a valid element of all that `runAll` reads, and of no more. -/
theorem exists_join_of_runAll {parts : List Recognizer} {items : List Element} {stop : Nat}
    (hparts : ∀ p ∈ parts, Sound p) (hne : parts ≠ []) (hpos : t.isBoundary pos = true)
    (h : (runAll t parts pos).result = .ok (some (items, stop))) :
    ∃ x, (join parts t pos).result = .ok (some (.join x items)) ∧ x.isValid = true ∧
      x.span = ⟨pos, stop⟩ := by
  obtain ⟨x, hx⟩ := exists_ok_ofItems t items ⟨pos, stop⟩
  have hjoin : (join parts t pos).result = .ok (some (.join x items)) := by
    rw [join_eq hne, h]
    show (Extent.ofItems t items ⟨pos, stop⟩).result.map _ = _
    rw [hx]
    rfl
  have hvalid : x.isValid = true :=
    (sound_of_boundary (sound_join hparts t pos _ hjoin) hpos).2.placed.valid
  obtain ⟨first, last, -, -, rfl⟩ := exists_of_ofItems hx hvalid
  exact ⟨_, hjoin, hvalid, rfl⟩

/-! ## Choices -/

/-- A choice answers what one of its parts does. -/
theorem sound_choice {parts : List Recognizer} (hparts : ∀ p ∈ parts, Sound p) :
    Sound (choice parts) := by
  intro t pos ans h
  induction parts with
  | nil => exact answers_none h
  | cons p parts ih =>
      obtain ⟨found, hfound, h⟩ := Traced.result_bind_eq_ok_iff.mp h
      cases found with
      | none => exact ih (fun q hq => hparts q (List.mem_cons_of_mem _ hq)) h
      | some e =>
          obtain rfl := Except.ok.inj h
          exact hparts p (List.mem_cons_self ..) t pos _ hfound

/-- The inversion of `choice`: its answer is that of one of its parts. -/
theorem exists_of_choice {parts : List Recognizer} {e : Element}
    (h : (choice parts t pos).result = .ok (some e)) :
    ∃ p ∈ parts, (p t pos).result = .ok (some e) := by
  induction parts with
  | nil => cases h
  | cons p parts ih =>
      obtain ⟨found, hfound, h⟩ := Traced.result_bind_eq_ok_iff.mp h
      cases found with
      | none =>
          obtain ⟨q, hq, h⟩ := ih h
          exact ⟨q, List.mem_cons_of_mem p hq, h⟩
      | some e' =>
          obtain rfl := Option.some.inj (Except.ok.inj h)
          exact ⟨p, List.mem_cons_self .., hfound⟩

/-- If `choice` halts, one of its parts does. -/
theorem exists_of_choice_error {parts : List Recognizer} {halt : Halt}
    (h : (choice parts t pos).result = .error halt) :
    ∃ p ∈ parts, (p t pos).result = .error halt := by
  induction parts with
  | nil => cases h
  | cons p parts ih =>
      rcases Traced.result_bind_eq_error_iff.mp h with h | ⟨found, -, h⟩
      · exact ⟨p, List.mem_cons_self .., h⟩
      cases found with
      | none =>
          obtain ⟨q, hq, h⟩ := ih h
          exact ⟨q, List.mem_cons_of_mem p hq, h⟩
      | some e => cases h

/-- An optional part answers what the part does, or an empty element where it stands. -/
theorem sound_optional {part : Recognizer} (hpart : Sound part) : Sound (optional part) := by
  intro t pos ans h
  unfold optional at h
  split at h
  · exact answers_none h
  next hle =>
    obtain ⟨found, hfound, h⟩ := Traced.result_bind_eq_ok_iff.mp h
    cases found with
    | none =>
        obtain ⟨x, hx, h⟩ := Traced.result_bind_eq_ok_iff.mp h
        obtain rfl := Except.ok.inj h
        exact answers_empty hx (Nat.le_of_not_lt hle)
    | some e =>
        obtain rfl := Except.ok.inj h
        exact hpart t pos _ hfound

/-! ## Groups -/

theorem runSlots_cons (p : Recognizer) (parts : List Recognizer) :
    (runSlots t (p :: parts) pos).result
      = (p t pos).result.bind fun slot =>
          (runSlots t parts ((slot.map fun e => e.span.stop).getD pos)).result.map fun run =>
            (slot :: run.1, run.2) := by
  rw [runSlots, Traced.result_bind]
  rcases (p t pos).result with halt | slot
  · rfl
  · show (runSlots t parts _ >>= _).result = (runSlots t parts _).result.map _
    rw [Traced.result_bind]
    rcases (runSlots t parts ((slot.map fun e => e.span.stop).getD pos)).result with halt | run <;> rfl

theorem group_eq (parts : List Recognizer) :
    (group parts t pos).result
      = (runSlots t parts pos).result.bind fun (slots, stop) =>
          match (slots.filterMap id).head?, (slots.filterMap id).getLast? with
          | some first, some last =>
              (Extent.ofRange t first.start last.stop ⟨pos, stop⟩).result.map fun x =>
                some (.group x slots)
          | _, _ => .ok none := by
  rw [group, Traced.result_bind]
  rcases (runSlots t parts pos).result with halt | ⟨slots, stop⟩
  · rfl
  · dsimp only [Except.bind]
    cases (slots.filterMap id).head? with
    | none => rfl
    | some first =>
        cases (slots.filterMap id).getLast? with
        | none => rfl
        | some last =>
            exact Traced.result_bind_pure (Extent.ofRange t first.start last.stop ⟨pos, stop⟩) _

theorem exists_of_runSlots_cons {p : Recognizer} {parts : List Recognizer}
    {slots : List (Option Element)} {stop : Nat}
    (h : (runSlots t (p :: parts) pos).result = .ok (slots, stop)) :
    ∃ slot rest, slots = slot :: rest ∧ (p t pos).result = .ok slot ∧
      (runSlots t parts ((slot.map fun e => e.span.stop).getD pos)).result = .ok (rest, stop) := by
  obtain ⟨slot, hslot, h⟩ := Traced.result_bind_eq_ok_iff.mp h
  obtain ⟨⟨rest, last⟩, hrest, h⟩ := Traced.result_bind_eq_ok_iff.mp h
  obtain ⟨rfl, rfl⟩ := Prod.mk.inj (Except.ok.inj h)
  exact ⟨slot, rest, rfl, hslot, hrest⟩

/-- At a cut of the text, what `runSlots` has put into slots is a `Row`. -/
theorem row_of_runSlots {parts : List Recognizer} {slots : List (Option Element)} {stop : Nat}
    (hparts : ∀ p ∈ parts, Sound p) (hpos : t.isBoundary pos = true)
    (h : (runSlots t parts pos).result = .ok (slots, stop)) :
    Element.Row t pos (slots.filterMap id) stop := by
  induction parts generalizing pos slots with
  | nil =>
      obtain ⟨rfl, rfl⟩ := Prod.mk.inj (Except.ok.inj h)
      exact .nil hpos
  | cons p parts ih =>
      obtain ⟨slot, rest, rfl, hslot, hrest⟩ := exists_of_runSlots_cons h
      have hothers : ∀ q ∈ parts, Sound q := fun q hq => hparts q (List.mem_cons_of_mem _ hq)
      cases slot with
      | none =>
          -- an empty slot takes nothing up
          show Element.Row t pos (rest.filterMap id) stop
          exact ih hothers hpos hrest
      | some e =>
          have hanswer := hparts p (List.mem_cons_self ..) t pos _ hslot
          obtain ⟨hle, hsound⟩ := sound_of_boundary hanswer hpos
          exact .cons hle hsound (ih hothers hsound.placed.span_stop_boundary hrest)

/-- `runSlots` fills no slot past the end of the text, since the parts are `Sound`. -/
theorem le_size_of_runSlots {parts : List Recognizer} {slots : List (Option Element)} {stop : Nat}
    (hparts : ∀ p ∈ parts, Sound p) (h : (runSlots t parts pos).result = .ok (slots, stop))
    (hfilled : slots.filterMap id ≠ []) : pos ≤ t.size := by
  induction parts generalizing slots with
  | nil =>
      obtain ⟨rfl, rfl⟩ := Prod.mk.inj (Except.ok.inj h)
      exact absurd rfl hfilled
  | cons p parts ih =>
      obtain ⟨slot, rest, rfl, hslot, hrest⟩ := exists_of_runSlots_cons h
      cases slot with
      | none => exact ih (fun q hq => hparts q (List.mem_cons_of_mem _ hq)) hrest hfilled
      | some e => exact le_size_of_some (hparts p (List.mem_cons_self ..) t pos _ hslot)

/-- Groups are `Sound`: the slots that were filled are in order, and others take up nothing. -/
theorem sound_group {parts : List Recognizer} (hparts : ∀ p ∈ parts, Sound p) :
    Sound (group parts) := by
  intro t pos ans h
  obtain ⟨⟨slots, stop⟩, hrun, h⟩ := Traced.result_bind_eq_ok_iff.mp h
  dsimp only at h
  split at h
  next first last hfirst hlast =>
    obtain ⟨x, hx, h⟩ := Traced.result_bind_eq_ok_iff.mp h
    obtain rfl := Except.ok.inj h
    by_cases hpos : t.isBoundary pos = true
    · exact answers_of_ends hx hpos rfl (row_of_runSlots hparts hpos hrun) hfirst hlast
    · have hinside : t.isBoundary pos = false := by simpa using hpos
      have hfilled : slots.filterMap id ≠ [] := by
        intro hnil
        rw [hnil] at hfirst
        cases hfirst
      have hsize := le_size_of_runSlots hparts hrun hfilled
      exact answers_of_inside hx hsize hinside rfl rfl (by simp)
  · exact answers_none h

/-- At a cut of the text `group` makes a valid element of slots that are not all empty. -/
theorem exists_group_of_runSlots {parts : List Recognizer} {slots : List (Option Element)} {stop : Nat}
    {first last : Element} (hparts : ∀ p ∈ parts, Sound p) (hpos : t.isBoundary pos = true)
    (h : (runSlots t parts pos).result = .ok (slots, stop))
    (hfirst : (slots.filterMap id).head? = some first)
    (hlast : (slots.filterMap id).getLast? = some last) :
    ∃ x, (group parts t pos).result = .ok (some (.group x slots)) ∧ x.isValid = true ∧
      x.start = first.start ∧ x.stop = last.stop ∧ x.span = ⟨pos, stop⟩ := by
  obtain ⟨x, hx⟩ := Extent.exists_ok_ofRange t first.start last.stop ⟨pos, stop⟩
  have hgroup : (group parts t pos).result = .ok (some (.group x slots)) := by
    rw [group_eq, h]
    dsimp only [Except.bind]
    rw [hfirst, hlast]
    dsimp only
    rw [hx]
    rfl
  have hvalid : x.isValid = true :=
    (sound_of_boundary (sound_group hparts t pos _ hgroup) hpos).2.placed.valid
  obtain rfl := Extent.eq_of_ofRange_of_isValid hx hvalid
  exact ⟨_, hgroup, hvalid, rfl, rfl, rfl⟩

/-- The other case of `exists_group_of_runSlots`. -/
theorem result_group_of_empty {parts : List Recognizer} {slots : List (Option Element)} {stop : Nat}
    (h : (runSlots t parts pos).result = .ok (slots, stop)) (hempty : ∀ slot ∈ slots, slot = none) :
    (group parts t pos).result = .ok none := by
  have hnone : slots.filterMap id = [] := by simpa [List.filterMap_eq_nil_iff] using hempty
  rw [group_eq, h]
  dsimp only [Except.bind]
  rw [hnone]
  rfl

end Recognizer

end Graft
