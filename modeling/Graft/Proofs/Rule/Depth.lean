import Mathlib.Data.Finset.Card
import Mathlib.Data.Finset.Prod
import Mathlib.Order.Interval.Finset.Nat
import Graft.Proofs.Element.Shift
import Graft.Proofs.Recognizer.Below
import Graft.Proofs.Rule

/-!
# `Graft.Proofs.Rule.Depth` — how many slots may be open plays no role

A rule is read with a bound on how many slots may be open at once (`Rule.depthBound`). That bound is
large enough: a rule that gives up with it gives up with any other one as well (`Rule.result_through`).
So a forward answers just what its target answers (`Rule.result_parse_forward`), and a rule answers
what it would answer if each forward in it were read on its own (`Rule.result_parse`).

With more slots a rule says no less, and what it says about a set of positions that runs do not leave
follows from what the slots say there. As long as one more open slot makes a difference somewhere, it
makes a slot answer at a position where it gave up before. There are only so many pairs of a slot and a
position.
-/

namespace Graft

/-- A growing chain in `U` stands still after at most `U.card` steps. -/
theorem exists_eq_succ_of_chain {α : Type} {E : Nat → Finset α} {U : Finset α} (hsub : ∀ d, E d ⊆ U)
    (hmono : ∀ d, E d ⊆ E (d + 1)) : ∃ d ≤ U.card, E d = E (d + 1) := by
  by_contra hmoves
  push Not at hmoves
  have hgrows : ∀ d ≤ U.card + 1, d ≤ (E d).card := by
    intro d hd
    induction d with
    | zero => exact Nat.zero_le _
    | succ d ih =>
        have hlt : E d ⊂ E (d + 1) := (hmono d).ssubset_of_ne (hmoves d (by omega))
        have := Finset.card_lt_card hlt
        have := ih (by omega)
        omega
  have := hgrows (U.card + 1) (Nat.le_refl _)
  have := Finset.card_le_card (hsub (U.card + 1))
  omega

/-! ## Positions -/

namespace Recognizer

variable {t : Text} {pos : Nat}

theorem span_stop_of_misplaced {e : Element} (h : e.Misplaced) : e.span.stop = 0 := by
  rw [Element.span, h.extent_eq]
  rfl

/-- `Closed` at a cut: runs go on forward from cut to cut, up to the end of the text. -/
theorem closed_from (t : Text) (pos : Nat) :
    Closed t fun p => t.isBoundary p = true ∧ pos ≤ p := by
  rintro p e ⟨hp, hle⟩ hanswer
  obtain ⟨hstart, hsound⟩ := sound_of_boundary hanswer hp
  have hplaced := hsound.placed
  refine ⟨hplaced.span_stop_boundary, ?_⟩
  calc
    pos ≤ p := hle
    _ ≤ e.span.start := hstart
    _ ≤ e.span.stop := hplaced.span_start_le_stop

/-- `Closed` inside a character: invalid elements end anywhere, but not past the end of the text. -/
theorem closed_within (t : Text) : Closed t fun p => p ≤ t.size := by
  intro p e hp hanswer
  by_cases hcut : t.isBoundary p = true
  · exact (sound_of_boundary hanswer hcut).2.placed.span_stop_le
  · have hinside : t.isBoundary p = false := by simpa using hcut
    show e.span.stop ≤ t.size
    rw [span_stop_of_misplaced (misplaced_of_inside hanswer hinside)]
    exact Nat.zero_le _

/-- `Closed` past the end of the text, where nothing is found. -/
theorem closed_past (hpos : t.size < pos) : Closed t fun p => p = pos := by
  rintro p e rfl hanswer
  exact absurd (le_size_of_some hanswer) (Nat.not_le.mpr hpos)

theorem size_ahead_le (t : Text) (pos : Nat) : (t.ahead pos).size ≤ t.size := by
  unfold Text.ahead
  cases h : t.from? pos with
  | none => exact Nat.le_refl _
  | some rest =>
      rw [Text.size_of_from? h]
      exact Nat.le_add_left _ _

theorem ahead_of_inside (h : t.isBoundary pos = false) : t.ahead pos = t := by
  have hnone : t.from? pos = none := by simpa [Text.isBoundary] using h
  rw [Text.ahead, hnone]
  rfl

/-- For each position one of `closed_from`, `closed_within` and `closed_past` applies. In each case there
    are no more positions than places ahead, and no more is ahead of any of them. -/
theorem exists_closed (t : Text) (pos : Nat) :
    ∃ P : Finset Nat, pos ∈ P ∧ Closed t (· ∈ P) ∧ P.card ≤ (t.ahead pos).size + 1 ∧
      ∀ p ∈ P, (t.ahead p).size ≤ (t.ahead pos).size := by
  by_cases hcut : t.isBoundary pos = true
  · obtain ⟨rest, hrest⟩ := Option.isSome_iff_exists.mp hcut
    have hsize := Text.size_of_from? hrest
    have hmem (p : Nat) : p ∈ (Finset.Icc pos t.size).filter (t.isBoundary · = true) ↔
        t.isBoundary p = true ∧ pos ≤ p := by
      rw [Finset.mem_filter, Finset.mem_Icc]
      have := @Text.le_size_of_isBoundary t p
      tauto
    refine ⟨(Finset.Icc pos t.size).filter (t.isBoundary · = true), (hmem pos).mpr ⟨hcut, le_rfl⟩,
      ?_, ?_, ?_⟩
    · simpa only [hmem] using closed_from t pos
    · have := Finset.card_filter_le (Finset.Icc pos t.size) (t.isBoundary · = true)
      rw [Nat.card_Icc] at this
      rw [Text.ahead_of_from? hrest]
      omega
    · intro p hp
      obtain ⟨hcut', hle⟩ := (hmem p).mp hp
      obtain ⟨rest', hrest'⟩ := Option.isSome_iff_exists.mp hcut'
      have := Text.size_of_from? hrest'
      rw [Text.ahead_of_from? hrest, Text.ahead_of_from? hrest']
      omega
  · have hinside : t.isBoundary pos = false := by simpa using hcut
    rw [ahead_of_inside hinside]
    rcases Nat.lt_or_ge t.size pos with hpast | hwithin
    · refine ⟨{pos}, Finset.mem_singleton_self pos, ?_, ?_, fun p _ => size_ahead_le t p⟩
      · simpa only [Finset.mem_singleton] using closed_past hpast
      · rw [Finset.card_singleton]
        omega
    · refine ⟨Finset.range (t.size + 1), Finset.mem_range.mpr (by omega), ?_, ?_,
        fun p _ => size_ahead_le t p⟩
      · simpa only [Finset.mem_range, Nat.lt_succ_iff] using closed_within t
      · rw [Finset.card_range]

end Recognizer

namespace Rule

open Recognizer (Closed Under)
open Traced (Below)

/-! ## Rules whose forwards say less -/

section

variable {call call' : Slot → Recognizer} {t : Text} {S : Nat → Prop}

mutual

/-- `Under` goes through rules: a rule says less where its forwards do. One case for each constructor of
    `Rule`. -/
theorem under_recognizer (hS : Closed t S) (hcall : ∀ slot, Under t S (call slot) (call' slot)) :
    ∀ r : Rule, Under t S (recognizer call r) (recognizer call' r)
  | empty => by
      rw [recognizer, recognizer]
      exact .refl Recognizer.sound_empty
  | space => by
      rw [recognizer, recognizer]
      exact .refl (Recognizer.sound_ofProgram _ (fun _ => rfl) (fun _ => rfl))
  | word => by
      rw [recognizer, recognizer]
      exact .refl (Recognizer.sound_ofProgram _ (fun _ => rfl) (fun _ => rfl))
  | dottedWord => by
      rw [recognizer, recognizer]
      exact .refl (Recognizer.sound_ofProgram _ (fun _ => rfl) (fun _ => rfl))
  | string => by
      rw [recognizer, recognizer]
      exact .refl Recognizer.sound_string
  | number => by
      rw [recognizer, recognizer]
      exact .refl Recognizer.sound_number
  | bool => by
      rw [recognizer, recognizer]
      exact .refl Recognizer.sound_bool
  | plain literal => by
      rw [recognizer, recognizer]
      exact .refl (Recognizer.sound_plain literal)
  | symbol literal => by
      rw [recognizer, recognizer]
      exact .refl (Recognizer.sound_symbol literal)
  | pattern p => by
      rw [recognizer, recognizer]
      exact .refl (Recognizer.sound_ofProgram p (fun _ => rfl) (fun _ => rfl))
  | join parts => by
      rw [recognizer, recognizer]
      exact Recognizer.under_join hS (under_recognizers hS hcall parts)
  | choice alternatives => by
      rw [recognizer, recognizer]
      exact Recognizer.under_choice (under_recognizers hS hcall alternatives)
  | group parts => by
      rw [recognizer, recognizer]
      exact Recognizer.under_group hS (under_recognizers hS hcall parts)
  | optional part => by
      rw [recognizer, recognizer]
      exact Recognizer.under_optional (under_recognizer hS hcall part)
  | list item separator opening closing allowTrailing allowEmpty => by
      rw [recognizer, recognizer]
      exact Recognizer.under_list hS ⟨under_recognizer hS hcall item,
        under_recognizer hS hcall separator, under_recognizer? hS hcall opening,
        under_recognizer? hS hcall closing, rfl, rfl⟩
  | typeName own name => by
      rw [recognizer, recognizer]
      exact Recognizer.under_typeName hS (under_recognizer hS hcall name) (hcall own)
  | forward slot => by
      rw [recognizer, recognizer]
      exact hcall slot

theorem under_recognizers (hS : Closed t S) (hcall : ∀ slot, Under t S (call slot) (call' slot)) :
    ∀ parts : List Rule, List.Forall₂ (Under t S) (recognizers call parts) (recognizers call' parts)
  | [] => by
      rw [recognizers, recognizers]
      exact .nil
  | r :: rest => by
      rw [recognizers, recognizers]
      exact .cons (under_recognizer hS hcall r) (under_recognizers hS hcall rest)

theorem under_recognizer? (hS : Closed t S) (hcall : ∀ slot, Under t S (call slot) (call' slot)) :
    ∀ part : Option Rule, Option.Rel (Under t S) (recognizer? call part) (recognizer? call' part)
  | none => by
      rw [recognizer?, recognizer?]
      exact .none
  | some r => by
      rw [recognizer?, recognizer?]
      exact .some (under_recognizer hS hcall r)

end

end

/-! ## One more open slot -/

section

variable {resolve : Slot → Target} {slots : Nat} {t : Text} {P : Finset Nat} {depth : Nat}

/-- With one more open slot, `through` says no less. -/
theorem under_through {S : Nat → Prop} (resolve : Slot → Target) (hS : Closed t S) (depth : Nat)
    (slot : Slot) : Under t S (through resolve depth slot) (through resolve (depth + 1) slot) := by
  induction depth generalizing slot with
  | zero => exact ⟨sound_through resolve 0 slot, fun _ _ => .inl rfl⟩
  | succ depth ih =>
      refine ⟨sound_through resolve (depth + 1) slot, fun pos hpos => ?_⟩
      rw [through, through]
      cases resolve slot with
      | undefined => exact .refl _
      | dropped => exact .refl _
      | rule r => exact (under_recognizer hS ih r).below pos hpos

/-- One more open slot makes no difference at a set of positions. -/
def Settled (resolve : Slot → Target) (t : Text) (P : Finset Nat) (depth : Nat) : Prop :=
  ∀ slot, ∀ p ∈ P,
    (through resolve depth slot t p).result = (through resolve (depth + 1) slot t p).result

/-- Where the slots are `Settled` at these positions, so are all rules. -/
theorem Settled.result_recognizer (hP : Closed t (· ∈ P)) (h : Settled resolve t P depth) (r : Rule)
    {p : Nat} (hp : p ∈ P) :
    (r.recognizer (through resolve depth) t p).result
      = (r.recognizer (through resolve (depth + 1)) t p).result := by
  have hless (slot : Slot) : Under t (· ∈ P) (through resolve depth slot)
      (through resolve (depth + 1) slot) := under_through resolve hP depth slot
  have hmore (slot : Slot) : Under t (· ∈ P) (through resolve (depth + 1) slot)
      (through resolve depth slot) :=
    ⟨sound_through resolve _ slot, fun q hq => .inr (h slot q hq).symm⟩
  exact ((under_recognizer hP hless r).below p hp).antisymm
    ((under_recognizer hP hmore r).below p hp)

theorem Settled.succ (hP : Closed t (· ∈ P)) (h : Settled resolve t P depth) :
    Settled resolve t P (depth + 1) := by
  intro slot p hp
  rw [through, through]
  cases resolve slot with
  | undefined => rfl
  | dropped => rfl
  | rule r => exact h.result_recognizer hP r hp

theorem Settled.mono (hP : Closed t (· ∈ P)) {depth' : Nat} (h : Settled resolve t P depth)
    (hle : depth ≤ depth') : Settled resolve t P depth' := by
  induction hle with
  | refl => exact h
  | step _ ih => exact ih.succ hP

open Classical in
/-- The pairs of a slot and a position that get an answer when so many slots and one more may be
    open. -/
noncomputable def answered (resolve : Slot → Target) (slots : Nat) (t : Text) (P : Finset Nat)
    (depth : Nat) : Finset (Slot × Nat) :=
  (Finset.range slots ×ˢ P).filter fun a =>
    (through resolve (depth + 1) a.1 t a.2).result ≠ .error .endless

/-- The pairs in `answered`: a slot, and a position where reading through it does not give up for want of
    depth. -/
theorem mem_answered {slot : Slot} {p : Nat} : (slot, p) ∈ answered resolve slots t P depth ↔
    (slot < slots ∧ p ∈ P) ∧ (through resolve (depth + 1) slot t p).result ≠ .error .endless := by
  simp only [answered, Finset.mem_filter, Finset.mem_product, Finset.mem_range]

theorem answered_subset_product (resolve : Slot → Target) (slots : Nat) (t : Text) (P : Finset Nat)
    (depth : Nat) : answered resolve slots t P depth ⊆ Finset.range slots ×ˢ P := by
  rintro ⟨slot, p⟩ ha
  obtain ⟨⟨hslot, hp⟩, -⟩ := mem_answered.mp ha
  exact Finset.mem_product.mpr ⟨Finset.mem_range.mpr hslot, hp⟩

/-- Pairs that are `answered` still are with one more open slot, by `under_through`. -/
theorem answered_subset (hP : Closed t (· ∈ P)) (depth : Nat) :
    answered resolve slots t P depth ⊆ answered resolve slots t P (depth + 1) := by
  rintro ⟨slot, p⟩ ha
  obtain ⟨⟨hslot, hp⟩, hanswer⟩ := mem_answered.mp ha
  refine mem_answered.mpr ⟨⟨hslot, hp⟩, ?_⟩
  rcases (under_through resolve hP (depth + 1) slot).below p hp with h | h
  · exact absurd h hanswer
  · rwa [← h]

/-- If one more open slot leaves the `answered` pairs as they are, the answers are `Settled`: the pairs
    without an answer are those that run out of slots both times. -/
theorem settled_of_answered_eq (hslots : ∀ slot r, resolve slot = .rule r → slot < slots)
    (hP : Closed t (· ∈ P))
    (h : answered resolve slots t P depth = answered resolve slots t P (depth + 1)) :
    Settled resolve t P (depth + 1) := by
  intro slot p hp
  rcases (under_through resolve hP (depth + 1) slot).below p hp with hendless | heq
  · cases hresolve : resolve slot with
    | undefined => rw [through, through, hresolve]
    | dropped => rw [through, through, hresolve]
    | rule r =>
        -- a pair without an answer has none with one more slot either
        have hnot : (slot, p) ∉ answered resolve slots t P (depth + 1) := by
          rw [← h]
          exact fun hmem => (mem_answered.mp hmem).2 hendless
        rw [hendless]
        by_contra hne
        exact hnot (mem_answered.mpr ⟨⟨hslots slot r hresolve, hp⟩, Ne.symm hne⟩)
  · exact heq

/-- `answered` is a growing chain, so by `exists_eq_succ_of_chain` the answers are `Settled` at some
    depth. -/
theorem exists_settled (hslots : ∀ slot r, resolve slot = .rule r → slot < slots)
    (hP : Closed t (· ∈ P)) : ∃ depth ≤ slots * P.card + 1, Settled resolve t P depth := by
  obtain ⟨depth, hle, hstill⟩ := exists_eq_succ_of_chain
    (answered_subset_product resolve slots t P) (answered_subset hP)
  rw [Finset.card_product, Finset.card_range] at hle
  exact ⟨depth + 1, Nat.succ_le_succ hle, settled_of_answered_eq hslots hP hstill⟩

/-- At the latest with one more open slot than there are pairs of a slot and a position everything is
    `Settled`, by `exists_settled`, and stays so. -/
theorem settled_of_le (hslots : ∀ slot r, resolve slot = .rule r → slot < slots)
    (hP : Closed t (· ∈ P)) (hdepth : slots * P.card + 1 ≤ depth) : Settled resolve t P depth := by
  obtain ⟨enough, hle, h⟩ := exists_settled hslots hP
  exact h.mono hP (Nat.le_trans hle hdepth)

/-! ## Forwards -/

/-- `depthBound` is large enough for every position that a run may come to: it was chosen for the number
    of pairs. -/
theorem settled_depthBound (hslots : ∀ slot r, resolve slot = .rule r → slot < slots)
    (hP : Closed t (· ∈ P)) {pos : Nat} (hcard : P.card ≤ (t.ahead pos).size + 1)
    (hdepth : depthBound slots (t.ahead pos) ≤ depth + 1) (hpositive : 0 < slots) :
    Settled resolve t P depth := by
  refine settled_of_le hslots hP ?_
  have := Nat.mul_le_mul_left slots hcard
  have : slots * ((t.ahead pos).size + 2) = slots * ((t.ahead pos).size + 1) + slots :=
    Nat.mul_succ slots _
  unfold depthBound at hdepth
  omega

/-- So `through` with any larger bound answers as with `depthBound` of the text ahead. -/
theorem result_through (hslots : ∀ slot r, resolve slot = .rule r → slot < slots) {pos : Nat}
    (hdepth : depthBound slots (t.ahead pos) ≤ depth) (slot : Slot) :
    (through resolve depth slot t pos).result
      = ((forward slot).parse resolve slots t pos).result := by
  obtain ⟨P, hpos, hP, hcard, -⟩ := Recognizer.exists_closed t pos
  rw [parse, recognizer]
  induction hdepth with
  | refl => rfl
  | @step depth hle ih =>
      rcases Nat.eq_zero_or_pos slots with hnone | hpositive
      · -- without slots there is nothing that could be open
        obtain ⟨depth, rfl⟩ : ∃ d, depth = d + 1 :=
          Nat.exists_eq_succ_of_ne_zero (Nat.ne_of_gt (Nat.lt_of_lt_of_le (Nat.succ_pos _) hle))
        rw [← ih, through, through]
        cases hresolve : resolve slot with
        | undefined => rfl
        | dropped => rfl
        | rule r =>
            have hslot := hslots slot r hresolve
            rw [hnone] at hslot
            exact absurd hslot (Nat.not_lt_zero slot)
      · have hsettled := settled_depthBound hslots hP hcard (Nat.le_succ_of_le hle) hpositive
        rw [← ih]
        exact (hsettled slot pos hpos).symm

/-- Reading a `forward` once: a defect if its slot is not set, another one if its target is gone, and
    otherwise what the target answers, with slots enough left over. -/
theorem result_parse_forward (hslots : ∀ slot r, resolve slot = .rule r → slot < slots) (slot : Slot)
    (t : Text) (pos : Nat) :
    ((forward slot).parse resolve slots t pos).result =
      match resolve slot with
      | .undefined => .error (.defect .undefinedForward)
      | .dropped => .error (.defect .droppedForward)
      | .rule r => (r.parse resolve slots t pos).result := by
  rw [parse, recognizer, depthBound, through]
  cases hresolve : resolve slot with
  | undefined => rfl
  | dropped => rfl
  | rule r =>
      obtain ⟨P, hpos, hP, hcard, -⟩ := Recognizer.exists_closed t pos
      have hpositive : 0 < slots := Nat.lt_of_le_of_lt (Nat.zero_le slot) (hslots slot r hresolve)
      have hsettled := settled_depthBound hslots hP hcard (Nat.le_refl _) hpositive
      exact hsettled.result_recognizer hP r hpos

/-- `parse` one level at a time: a rule answers what it would answer if each of its forwards were read on
    its own. All proofs about rules with forwards go by this equation, and do not speak of depths. -/
theorem result_parse (hslots : ∀ slot r, resolve slot = .rule r → slot < slots) (r : Rule)
    (t : Text) (pos : Nat) :
    (r.parse resolve slots t pos).result
      = (r.recognizer (fun slot => (forward slot).parse resolve slots) t pos).result := by
  obtain ⟨P, hpos, hP, -, hahead⟩ := Recognizer.exists_closed t pos
  have hresult (slot : Slot) (p : Nat) (hp : p ∈ P) :
      (through resolve (depthBound slots (t.ahead pos)) slot t p).result
        = ((forward slot).parse resolve slots t p).result := by
    refine result_through hslots ?_ slot
    exact Nat.succ_le_succ (Nat.mul_le_mul_left slots (Nat.add_le_add_right (hahead p hp) 2))
  have hless (slot : Slot) : Under t (· ∈ P)
      (through resolve (depthBound slots (t.ahead pos)) slot)
      ((forward slot).parse resolve slots) :=
    ⟨sound_through resolve _ slot, fun p hp => .inr (hresult slot p hp)⟩
  have hmore (slot : Slot) : Under t (· ∈ P) ((forward slot).parse resolve slots)
      (through resolve (depthBound slots (t.ahead pos)) slot) :=
    ⟨sound_parse resolve slots _, fun p hp => .inr (hresult slot p hp).symm⟩
  exact ((under_recognizer hP hless r).below pos hpos).antisymm
    ((under_recognizer hP hmore r).below pos hpos)

end

end Rule

end Graft
