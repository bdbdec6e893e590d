import Graft.Proofs.Element.Shift
import Graft.Proofs.Recognizer.List

/-!
# `Graft.Proofs.Recognizer.Local` — recognisers see only what lies ahead

What a recogniser answers at a cut of a text depends on the text from there on and on nothing before:
it is the answer for the rest of the text on its own, moved to where the rest begins
(`Recognizer.Local`).

A combinator of local recognisers is local if they are sound as well. Its parts start where elements
before them ended, and an element without a place in the text would send them back to its beginning.
Elements found at a cut always have a place, so that everything moves together: the ends that a list
remembers and compares, and the first and the last part that an extent is made from.
-/

namespace Graft

/-- Runs whose results agree up to `m` go on agreeing up to `m'`, if what follows does. The induction
    steps of this module are instances. -/
theorem Traced.result_bind_map {α α' β β' : Type} {x : Traced α} {x' : Traced α'}
    {f : α → Traced β} {f' : α' → Traced β'} {m : α' → α} {m' : β' → β}
    (hx : x.result = x'.result.map m)
    (hf : ∀ a, x'.result = .ok a → (f (m a)).result = (f' a).result.map m') :
    (x >>= f).result = (x' >>= f').result.map m' := by
  rw [result_bind, result_bind, hx]
  cases h : x'.result with
  | error halt => rfl
  | ok a => exact hf a h

namespace Recognizer

/-- A recogniser that answers at a cut of a text what it answers for the rest of the text, moved to
    where the rest begins. -/
def Local (p : Recognizer) : Prop :=
  ∀ ⦃t rest : Text⦄ ⦃pos : Nat⦄, t.from? pos = some rest →
    (p t pos).result = (p rest 0).result.map (Option.map (Element.shift pos))

variable {t rest : Text} {pos : Nat}

/-- `Local` at a cut further on in the rest of the text, by `Element.shift_shift`. -/
theorem Local.at_cut {p : Recognizer} (hp : Local p) (h : t.from? pos = some rest) {q : Nat}
    (hq : rest.isBoundary q = true) :
    (p t (pos + q)).result = (p rest q).result.map (Option.map (Element.shift pos)) := by
  obtain ⟨more, hmore⟩ := Option.isSome_iff_exists.mp hq
  have hfar : t.from? (pos + q) = some more := by rw [Text.from?_add h, hmore]
  rw [hp hfar, hp hmore]
  cases (p more 0).result with
  | error halt => rfl
  | ok ans =>
      cases ans with
      | none => rfl
      | some e =>
          simp only [Except.map, Option.map_some, Element.shift_shift]

/-! ## Elements that are built alike -/

/-- `result_ofRange_shift` for a recogniser that makes one element of the extent. -/
theorem result_ofRange_bind (h : t.from? pos = some rest) (start stop : Nat) (span : Span)
    {kind kind' : Extent → Element} (hkind : ∀ x, (kind' x).shift pos = kind (x.shift pos)) :
    (Extent.ofRange t (pos + start) (pos + stop) (span.shift pos) >>= fun x =>
        (pure (some (kind x)) : Traced (Option Element))).result
      = (Extent.ofRange rest start stop span >>= fun x =>
          (pure (some (kind' x)) : Traced (Option Element))).result.map
            (Option.map (Element.shift pos)) := by
  apply Traced.result_bind_map (Extent.result_ofRange_shift h start stop span)
  intro x _
  simp only [Traced.result_pure, Except.map, Option.map_some, hkind]

/-! ## Recognisers given by expressions -/

/-- `scan?` hands only the rest of the text to the matcher. -/
theorem scan?_shift (p : Regex.Program) (h : t.from? pos = some rest) :
    p.scan? t pos = (p.scan? rest 0).map (·.shift pos) := by
  have hlt : pos < t.size ↔ 0 < rest.size := by
    rw [Text.size_of_from? h]
    omega
  simp only [Regex.Program.scan?, hlt, h, Text.from?_zero, Option.bind_some]
  split
  · cases p.find? rest with
    | none => rfl
    | some found => simp [Bounds.shift, Span.shift]
  · rfl

/-- A recogniser of one program is `Local`, since the program is only shown the rest of the text. -/
theorem local_ofProgram (p : Regex.Program) {kind : Extent → Element}
    (hkind : ∀ n x, (kind x).shift n = kind (x.shift n)) : Local (ofProgram p kind) := by
  intro t rest pos h
  unfold ofProgram
  rw [scan?_shift p h]
  cases p.scan? rest 0 with
  | none => rfl
  | some b => exact result_ofRange_bind h b.start b.stop b.span (hkind pos)

theorem local_bool : Local bool := by
  intro t rest pos h
  unfold bool
  rw [scan?_shift Token.boolProgram h]
  cases Token.boolProgram.scan? rest 0 with
  | none => rfl
  | some b =>
      refine result_ofRange_bind h b.start b.stop b.span fun x => ?_
      rw [Element.shift, Extent.content?_shift h]

theorem local_number : Local number := by
  intro t rest pos h
  have hlt : pos < t.size ↔ 0 < rest.size := by
    rw [Text.size_of_from? h]
    omega
  simp only [number, hlt, h, Text.from?_zero]
  split
  · cases Token.numberProgram.find? rest with
    | none => rfl
    | some found =>
        dsimp only
        cases found.group? 1 with
        | none => rfl
        | some integer =>
            simp only [Nat.zero_add]
            exact result_ofRange_bind h integer.start _ found.span fun x => by rw [Element.shift]
  · rfl

/-! ## Recognisers that read characters -/

theorem local_empty : Local empty := by
  intro t rest pos h
  have hpos : ¬ t.size < pos := by
    rw [Text.size_of_from? h]
    omega
  rw [empty, empty, if_neg hpos, if_neg (Nat.not_lt_zero _)]
  exact result_ofRange_bind h 0 0 ⟨0, 0⟩ fun x => by rw [Element.shift]

theorem local_plain (literal : Text) : Local (plain literal) := by
  intro t rest pos h
  have hlt : pos < t.size ↔ 0 < rest.size := by
    rw [Text.size_of_from? h]
    omega
  simp only [plain, hlt, h, Text.from?_zero]
  split
  · split
    · simp only [Nat.zero_add]
      exact result_ofRange_bind h 0 literal.size ⟨0, literal.size⟩ fun x => by rw [Element.shift]
    · rfl
  · rfl

theorem local_symbol (literal : Text) : Local (symbol literal) := by
  intro t rest pos h
  have hlt : pos < t.size ↔ 0 < rest.size := by
    rw [Text.size_of_from? h]
    omega
  simp only [symbol, hlt, h, Text.from?_zero]
  split
  · split
    · simp only [Nat.zero_add, Nat.add_assoc]
      exact result_ofRange_bind h _ _ ⟨0, _⟩ fun x => by rw [Element.shift]
    · rfl
  · rfl

theorem local_string : Local string := by
  intro t rest pos h
  simp only [string, h, Text.from?_zero]
  rcases rawMarker (rest.dropWhile isSkipped) with ⟨raw, quoted⟩
  cases quoted with
  | nil => rfl
  | cons mark body =>
      dsimp only
      split
      · cases closingQuote? mark false body with
        | none => rfl
        | some length =>
            simp only [Nat.zero_add, Nat.add_assoc]
            exact result_ofRange_bind h _ _ ⟨0, _⟩ fun x => by rw [Element.shift]; rfl
      · rfl

/-! ## Sequences and choices -/

theorem valid_of_answer {p : Recognizer} (hp : Sound p) {q : Nat} {e : Element}
    (hq : t.isBoundary q = true) (h : (p t q).result = .ok (some e)) :
    e.isValid = true ∧ t.isBoundary e.span.stop = true := by
  have hplaced := (sound_of_boundary (hp t q _ h) hq).2.placed
  exact ⟨hplaced.valid, hplaced.span_stop_boundary⟩

/-- One part after the other: `runAll` moves with the text. By induction on the parts. -/
theorem result_runAll_shift (h : t.from? pos = some rest) {parts : List Recognizer}
    (hsound : ∀ p ∈ parts, Sound p) (hlocal : ∀ p ∈ parts, Local p) {q : Nat}
    (hq : rest.isBoundary q = true) :
    (runAll t parts (pos + q)).result
      = (runAll rest parts q).result.map
          (Option.map fun r => (r.1.map (Element.shift pos), pos + r.2)) := by
  induction parts generalizing q with
  | nil => rfl
  | cons p parts ih =>
      rw [runAll, runAll]
      apply Traced.result_bind_map ((hlocal p (List.mem_cons_self ..)).at_cut h hq)
      intro ans hans
      cases ans with
      | none => rfl
      | some e =>
          obtain ⟨hvalid, hstop⟩ := valid_of_answer (hsound p (List.mem_cons_self ..)) hq hans
          have hrun := ih (fun p hp => hsound p (List.mem_cons_of_mem _ hp))
            (fun p hp => hlocal p (List.mem_cons_of_mem _ hp)) hstop
          simp only [Option.map_some, Element.span_shift hvalid]
          apply Traced.result_bind_map hrun
          intro run _
          cases run <;> rfl

/-- `Extent.ofItems` of moved items, where all of them are valid. -/
theorem result_ofItems_shift (h : t.from? pos = some rest) {items : List Element}
    (hvalid : ∀ e ∈ items, e.isValid = true) (span : Span) :
    (Extent.ofItems t (items.map (Element.shift pos)) (span.shift pos)).result
      = (Extent.ofItems rest items span).result.map (Extent.shift pos) := by
  cases items with
  | nil => rfl
  | cons first others =>
      obtain ⟨last, hlast⟩ : ∃ last, (first :: others).getLast? = some last :=
        Option.isSome_iff_exists.mp (by simp)
      rw [Extent.ofItems, Extent.ofItems, List.getLast?_map, hlast]
      show (Extent.ofRange t (first.shift pos).start (last.shift pos).stop (span.shift pos)).result
        = (Extent.ofRange rest first.start last.stop span).result.map (Extent.shift pos)
      rw [Element.start_shift (hvalid first (List.mem_cons_self ..)),
        Element.stop_shift (hvalid last (List.mem_of_getLast? hlast))]
      exact Extent.result_ofRange_shift h _ _ span

theorem local_join {parts : List Recognizer} (hsound : ∀ p ∈ parts, Sound p)
    (hlocal : ∀ p ∈ parts, Local p) : Local (join parts) := by
  intro t rest pos h
  unfold join
  split
  · rfl
  · have hrun := result_runAll_shift h hsound hlocal (Text.isBoundary_zero rest)
    apply Traced.result_bind_map hrun
    intro run hrun
    cases run with
    | none => rfl
    | some run =>
        obtain ⟨items, stop⟩ := run
        have hrow := row_of_runAll hsound (Text.isBoundary_zero rest) hrun
        have hvalid : ∀ e ∈ items, e.isValid = true := fun e he => (hrow.sound e he).placed.valid
        have hjoin : (Element.ofJoin t (items.map (Element.shift pos)) ⟨pos, pos + stop⟩).result
            = (Element.ofJoin rest items ⟨0, stop⟩).result.map (Element.shift pos) := by
          apply Traced.result_bind_map (result_ofItems_shift h hvalid ⟨0, stop⟩)
          intro x _
          simp only [Traced.result_pure, Except.map, Element.shift, Element.shiftAll_eq_map]
        apply Traced.result_bind_map hjoin
        intro e _
        rfl

theorem local_choice {parts : List Recognizer} (hlocal : ∀ p ∈ parts, Local p) :
    Local (choice parts) := by
  intro t rest pos h
  induction parts with
  | nil => rfl
  | cons p parts ih =>
      rw [choice, choice]
      apply Traced.result_bind_map (hlocal p (List.mem_cons_self ..) h)
      intro ans _
      cases ans with
      | none => exact ih fun q hq => hlocal q (List.mem_cons_of_mem _ hq)
      | some e => rfl

theorem local_optional {part : Recognizer} (hlocal : Local part) : Local (optional part) := by
  intro t rest pos h
  have hpos : ¬ t.size < pos := by
    rw [Text.size_of_from? h]
    omega
  rw [optional, optional, if_neg hpos, if_neg (Nat.not_lt_zero _)]
  apply Traced.result_bind_map (hlocal h)
  intro ans _
  cases ans with
  | none => exact result_ofRange_bind h 0 0 ⟨0, 0⟩ fun x => by rw [Element.shift]
  | some e => rfl

/-! ## Groups -/

theorem result_runSlots_shift (h : t.from? pos = some rest) {parts : List Recognizer}
    (hsound : ∀ p ∈ parts, Sound p) (hlocal : ∀ p ∈ parts, Local p) {q : Nat}
    (hq : rest.isBoundary q = true) :
    (runSlots t parts (pos + q)).result
      = (runSlots rest parts q).result.map
          fun r => (r.1.map (Option.map (Element.shift pos)), pos + r.2) := by
  induction parts generalizing q with
  | nil => rfl
  | cons p parts ih =>
      have hothers : ∀ {q : Nat}, rest.isBoundary q = true → _ := fun {q} =>
        ih (q := q) (fun p hp => hsound p (List.mem_cons_of_mem _ hp))
          fun p hp => hlocal p (List.mem_cons_of_mem _ hp)
      rw [runSlots, runSlots]
      apply Traced.result_bind_map ((hlocal p (List.mem_cons_self ..)).at_cut h hq)
      intro slot hslot
      cases slot with
      | none =>
          apply Traced.result_bind_map (hothers hq)
          intro run _
          rfl
      | some e =>
          obtain ⟨hvalid, hstop⟩ := valid_of_answer (hsound p (List.mem_cons_self ..)) hq hslot
          simp only [Option.map_some, Option.getD_some, Element.span_shift hvalid]
          apply Traced.result_bind_map (hothers hstop)
          intro run _
          rfl

theorem local_group {parts : List Recognizer} (hsound : ∀ p ∈ parts, Sound p)
    (hlocal : ∀ p ∈ parts, Local p) : Local (group parts) := by
  intro t rest pos h
  have hrun := result_runSlots_shift h hsound hlocal (Text.isBoundary_zero rest)
  apply Traced.result_bind_map hrun
  rintro ⟨slots, stop⟩ hrun
  have hrow := row_of_runSlots hsound (Text.isBoundary_zero rest) hrun
  have hpresent : (slots.map (Option.map (Element.shift pos))).filterMap id
      = (slots.filterMap id).map (Element.shift pos) := by
    rw [List.filterMap_map, List.map_filterMap]
    rfl
  dsimp only
  rw [hpresent, List.head?_map, List.getLast?_map]
  cases hfirst : (slots.filterMap id).head? with
  | none => rfl
  | some first =>
      cases hlast : (slots.filterMap id).getLast? with
      | none => rfl
      | some last =>
          have hvalid := (hrow.sound first (List.mem_of_head? hfirst)).placed.valid
          have hvalid' := (hrow.sound last (List.mem_of_getLast? hlast)).placed.valid
          simp only [Option.map_some, Element.start_shift hvalid, Element.stop_shift hvalid']
          refine result_ofRange_bind h _ _ ⟨0, stop⟩ fun x => ?_
          rw [Element.shift, Element.shiftSlots_eq_map]

end Recognizer

end Graft
