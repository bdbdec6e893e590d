import Mathlib.Data.List.Forall2
import Graft.Proofs.Recognizer.List

/-!
# `Graft.Proofs.Recognizer.Below` — recognisers that say less

A recogniser that may open only so many slots gives up where it would need more of them
(`Halt.endless`). Apart from this it says what it would say with more slots: it is *below* the
recogniser with more (`Traced.Below`). Combinators keep this up. A part that gives up makes the whole
give up, and as long as no part does, everything goes on in the same way.

Of the positions of a text only those play a role to which a run may come. Sound recognisers keep to a
set of positions if that is closed (`Recognizer.Closed`), so it is enough to compare recognisers there
(`Recognizer.Under`).
-/

namespace Graft

/-! ## Runs that say less -/

namespace Traced

variable {α β : Type} {x y : Traced α}

/-- A run that gave up, or else has the result of another one. -/
def Below (x y : Traced α) : Prop :=
  x.result = .error .endless ∨ x.result = y.result

theorem Below.refl (x : Traced α) : Below x x :=
  .inr rfl

/-- Runs that are `Below` each other have the same result. -/
theorem Below.antisymm (h : Below x y) (h' : Below y x) : x.result = y.result := by
  rcases h with h | h
  · rcases h' with h' | h'
    · rw [h, h']
    · exact h'.symm
  · exact h

theorem Below.bind {f g : α → Traced β} (h : Below x y)
    (hf : ∀ a, x.result = .ok a → Below (f a) (g a)) : Below (x >>= f) (y >>= g) := by
  unfold Below
  rw [result_bind, result_bind]
  rcases h with h | h
  · left
    rw [h]
    rfl
  · rw [← h]
    cases hx : x.result with
    | error halt => exact .inr rfl
    | ok a => exact hf a hx

end Traced

open Traced (Below)

namespace Recognizer

/-! ## Positions that a run may come to -/

/-- A set of positions of a text that fair answers do not lead out of. -/
def Closed (t : Text) (S : Nat → Prop) : Prop :=
  ∀ pos e, S pos → Answers t pos (some e) → S e.span.stop

/-- A sound recogniser that is below another one at all positions of a set. -/
structure Under (t : Text) (S : Nat → Prop) (p q : Recognizer) : Prop where
  sound : p.Sound
  below : ∀ pos, S pos → Below (p t pos) (q t pos)

variable {t : Text} {S : Nat → Prop} {pos : Nat}

theorem Under.refl {p : Recognizer} (h : p.Sound) : Under t S p p :=
  ⟨h, fun _ _ => .refl _⟩

/-- A set that is `Closed` under what recognisers answer holds the end of every element that is found from
    it. -/
theorem Closed.stop (hS : Closed t S) {p : Recognizer} (hp : p.Sound) (hpos : S pos) {e : Element}
    (h : (p t pos).result = .ok (some e)) : S e.span.stop :=
  hS pos e hpos (hp t pos _ h)

/-! ## Sequences, choices and groups -/

theorem sound_of_forall₂ {ps qs : List Recognizer} (h : List.Forall₂ (Under t S) ps qs) :
    ∀ p ∈ ps, Sound p := by
  induction h with
  | nil => simp
  | cons hp _ ih => exact List.forall_mem_cons.mpr ⟨hp.sound, ih⟩

/-- One part after the other, as long as the parts stay within the positions. -/
theorem below_runAll (hS : Closed t S) {ps qs : List Recognizer}
    (h : List.Forall₂ (Under t S) ps qs) (hpos : S pos) :
    Below (runAll t ps pos) (runAll t qs pos) := by
  induction h generalizing pos with
  | nil => exact .refl _
  | @cons p q ps qs hp _ ih =>
      refine (hp.below pos hpos).bind fun found hfound => ?_
      cases found with
      | none => exact .refl _
      | some e => exact (ih (hS.stop hp.sound hpos hfound)).bind fun _ _ => .refl _

theorem under_join (hS : Closed t S) {ps qs : List Recognizer}
    (h : List.Forall₂ (Under t S) ps qs) : Under t S (join ps) (join qs) := by
  refine ⟨sound_join (sound_of_forall₂ h), fun pos hpos => ?_⟩
  cases h with
  | nil => exact .refl _
  | cons hp hps => exact (below_runAll hS (.cons hp hps) hpos).bind fun _ _ => .refl _

theorem below_choice {ps qs : List Recognizer} (h : List.Forall₂ (Under t S) ps qs) (hpos : S pos) :
    Below (choice ps t pos) (choice qs t pos) := by
  induction h with
  | nil => exact .refl _
  | cons hp _ ih =>
      refine (hp.below pos hpos).bind fun found _ => ?_
      cases found with
      | none => exact ih
      | some e => exact .refl _

theorem under_choice {ps qs : List Recognizer} (h : List.Forall₂ (Under t S) ps qs) :
    Under t S (choice ps) (choice qs) :=
  ⟨sound_choice (sound_of_forall₂ h), fun _ hpos => below_choice h hpos⟩

theorem below_runSlots (hS : Closed t S) {ps qs : List Recognizer}
    (h : List.Forall₂ (Under t S) ps qs) (hpos : S pos) :
    Below (runSlots t ps pos) (runSlots t qs pos) := by
  induction h generalizing pos with
  | nil => exact .refl _
  | cons hp _ ih =>
      refine (hp.below pos hpos).bind fun slot hslot => ?_
      have hnext : S ((slot.map fun e => e.span.stop).getD pos) := by
        cases slot with
        | none => exact hpos
        | some e => exact hS.stop hp.sound hpos hslot
      exact (ih hnext).bind fun _ _ => .refl _

theorem under_group (hS : Closed t S) {ps qs : List Recognizer}
    (h : List.Forall₂ (Under t S) ps qs) : Under t S (group ps) (group qs) :=
  ⟨sound_group (sound_of_forall₂ h), fun _ hpos =>
    (below_runSlots hS h hpos).bind fun _ _ => .refl _⟩

theorem under_optional {p q : Recognizer} (h : Under t S p q) :
    Under t S (optional p) (optional q) := by
  refine ⟨sound_optional h.sound, fun pos hpos => ?_⟩
  unfold optional
  split
  · exact .refl _
  · refine (h.below pos hpos).bind fun found _ => ?_
    cases found with
    | none => exact .refl _
    | some e => exact .refl _

/-! ## Lists -/

/-- Round after round of the two loops, by induction on their bound. -/
theorem below_runItems (hS : Closed t S) {item item' separator separator' : Recognizer}
    (hitem : Under t S item item') (hseparator : Under t S separator separator') (bound : Nat)
    {run : ItemRun} (hrun : S run.last.taken) :
    Below (runItems t item separator bound run) (runItems t item' separator' bound run) := by
  induction bound generalizing run with
  | zero => exact .refl _
  | succ bound ih =>
      refine (hitem.below _ hrun).bind fun found hfound => ?_
      cases found with
      | none => exact .refl _
      | some e =>
          have hnext : S e.span.stop := hS.stop hitem.sound hrun hfound
          refine (hseparator.below _ hnext).bind fun found hfound => ?_
          cases found with
          | none => exact .refl _
          | some s =>
              have hlast : S s.span.stop := hS.stop hseparator.sound hnext hfound
              dsimp only
              split
              · exact .refl _
              · exact ih hlast

/-- So it holds the end of the last token once `runItems` has read the items of a list. -/
theorem closed_runItems (hS : Closed t S) {item separator : Recognizer} (hitem : item.Sound)
    (hseparator : separator.Sound) {bound : Nat} {run run' : ItemRun} (hrun : S run.last.taken)
    (h : (runItems t item separator bound run).result = .ok run') : S run'.last.taken := by
  induction bound generalizing run with
  | zero => cases h
  | succ bound ih =>
      obtain ⟨found, hfound, h⟩ := Traced.result_bind_eq_ok_iff.mp h
      rcases found with _ | e
      · obtain rfl := Except.ok.inj h
        exact hrun
      have hnext : S e.span.stop := hS.stop hitem hrun hfound
      obtain ⟨found, hfound, h⟩ := Traced.result_bind_eq_ok_iff.mp h
      rcases found with _ | s
      · obtain rfl := Except.ok.inj h
        exact hnext
      dsimp only at h
      split at h
      · obtain rfl := Except.ok.inj h
        exact hnext
      · exact ih (hS.stop hseparator hnext hfound) h

theorem sound_of_rel {x y : Option Recognizer} (h : Option.Rel (Under t S) x y) :
    ∀ p ∈ x, Sound p := by
  cases h with
  | none => simp
  | some hp =>
      rintro _ ⟨⟩
      exact hp.sound

/-- Two lists of the same make, the parts of one of them under those of the other. -/
structure ListShape.Under (t : Text) (S : Nat → Prop) (a b : ListShape) : Prop where
  item : Recognizer.Under t S a.item b.item
  separator : Recognizer.Under t S a.separator b.separator
  opening : Option.Rel (Recognizer.Under t S) a.opening b.opening
  closing : Option.Rel (Recognizer.Under t S) a.closing b.closing
  allowTrailing : a.allowTrailing = b.allowTrailing
  allowEmpty : a.allowEmpty = b.allowEmpty

namespace ListShape.Under

variable {a b : ListShape}

theorem mayBeEmpty_eq (h : a.Under t S b) : a.mayBeEmpty = b.mayBeEmpty := by
  have hisSome {x y : Option Recognizer} (hxy : Option.Rel (Recognizer.Under t S) x y) :
      x.isSome = y.isSome := by
    cases hxy <;> rfl
  rw [mayBeEmpty, mayBeEmpty, hisSome h.opening, hisSome h.closing, h.allowEmpty]

theorem below_open? (h : a.Under t S b) (hpos : S pos) : Below (a.open? t pos) (b.open? t pos) := by
  have hopening := h.opening
  unfold open?
  generalize a.opening = p at hopening ⊢
  generalize b.opening = q at hopening ⊢
  cases hopening with
  | none => exact .refl _
  | some hp =>
      refine (hp.below pos hpos).bind fun found _ => ?_
      cases found <;> exact .refl _

theorem below_close? (h : a.Under t S b) {run : ItemRun} (hrun : S run.last.taken) :
    Below (a.close? t run) (b.close? t run) := by
  have hclosing := h.closing
  unfold close?
  rw [h.allowTrailing]
  generalize a.closing = p at hclosing ⊢
  generalize b.closing = q at hclosing ⊢
  cases hclosing with
  | none => exact .refl _
  | some hp =>
      dsimp only
      split
      · exact .refl _
      · refine (hp.below _ hrun).bind fun found _ => ?_
        cases found <;> exact .refl _

end ListShape.Under

/-- Lists are monotone in their items, separators and brackets. -/
theorem under_list (hS : Closed t S) {a b : ListShape} (h : a.Under t S b) :
    Under t S (list a) (list b) := by
  have hopening := sound_of_rel h.opening
  have hclosing := sound_of_rel h.closing
  refine ⟨sound_list h.item.sound h.separator.sound hopening hclosing, fun pos hpos => ?_⟩
  refine (h.below_open? hpos).bind fun opened hopened => ?_
  rcases opened with _ | ⟨start?, begin⟩
  · exact .refl _
  have hbegin : S begin := by
    rcases exists_of_open? hopened with ⟨-, -, rfl⟩ | ⟨p, e, hp, he, -, rfl⟩
    · exact hpos
    · exact hS.stop (hopening p hp) hpos he
  refine (below_runItems hS h.item h.separator _ hbegin).bind fun run hrun => ?_
  have hlast := closed_runItems hS h.item.sound h.separator.sound hbegin hrun
  rw [h.mayBeEmpty_eq]
  split
  · exact .refl _
  · exact (h.below_close? hlast).bind fun _ _ => .refl _

/-! ## Type names -/

theorem under_arguments (hS : Closed t S) {p q : Recognizer} (h : Under t S p q) :
    Under t S (arguments p) (arguments q) := by
  have hsymbol (s : Text) : Under t S (symbol s) (symbol s) := .refl (sound_symbol s)
  exact under_list hS ⟨h, hsymbol _, .some (hsymbol _), .some (hsymbol _), rfl, rfl⟩

/-- Type names are monotone in their name and in their arguments. -/
theorem under_typeName (hS : Closed t S) {name name' argument argument' : Recognizer}
    (hname : Under t S name name') (hargument : Under t S argument argument') :
    Under t S (typeName name argument) (typeName name' argument') := by
  refine ⟨sound_typeName hname.sound hargument.sound, fun pos hpos => ?_⟩
  have hgeneric := under_join hS (.cons hname (.cons (under_arguments hS hargument) .nil))
  exact (below_choice (.cons hgeneric (.cons hname .nil)) hpos).bind fun _ _ => .refl _

end Recognizer

end Graft
