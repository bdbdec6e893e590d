import Graft.Proofs.Recognizer.List
import Graft.Rule

/-!
# `Graft.Proofs.Rule` — whatever rules answer has a place in the text

Every rule keeps to the rule about positions (`Rule.sound_parse`), whatever its forwards point to and
however often they lead back to it. The proof takes a rule apart while its forwards are assumed to be
sound, and then counts the forwards that may still be open.

Callers are told what that means for an answer (`Rule.sound_of_parse`).
-/

namespace Graft

namespace Rule

open Recognizer

/-! ## Rules whose forwards are sound -/

variable {call : Slot → Recognizer}

mutual

/-- A rule is `Sound` where its forwards are. One case for each constructor of `Rule`, with the lemma of
    its recogniser. -/
theorem sound_recognizer (hcall : ∀ slot, (call slot).Sound) :
    ∀ r : Rule, (recognizer call r).Sound
  | empty => by
      rw [recognizer]
      exact sound_empty
  | space => by
      rw [recognizer]
      exact sound_ofProgram _ (fun _ => rfl) (fun _ => rfl)
  | word => by
      rw [recognizer]
      exact sound_ofProgram _ (fun _ => rfl) (fun _ => rfl)
  | dottedWord => by
      rw [recognizer]
      exact sound_ofProgram _ (fun _ => rfl) (fun _ => rfl)
  | string => by
      rw [recognizer]
      exact sound_string
  | number => by
      rw [recognizer]
      exact sound_number
  | bool => by
      rw [recognizer]
      exact sound_bool
  | plain literal => by
      rw [recognizer]
      exact sound_plain literal
  | symbol literal => by
      rw [recognizer]
      exact sound_symbol literal
  | pattern p => by
      rw [recognizer]
      exact sound_ofProgram p (fun _ => rfl) (fun _ => rfl)
  | join parts => by
      rw [recognizer]
      exact sound_join (sound_recognizers hcall parts)
  | choice alternatives => by
      rw [recognizer]
      exact sound_choice (sound_recognizers hcall alternatives)
  | group parts => by
      rw [recognizer]
      exact sound_group (sound_recognizers hcall parts)
  | optional part => by
      rw [recognizer]
      exact sound_optional (sound_recognizer hcall part)
  | list item separator opening closing allowTrailing allowEmpty => by
      rw [recognizer]
      exact sound_list (sound_recognizer hcall item) (sound_recognizer hcall separator)
        (sound_recognizer? hcall opening) (sound_recognizer? hcall closing)
  | typeName own name => by
      rw [recognizer]
      exact sound_typeName (sound_recognizer hcall name) (hcall own)
  | forward slot => by
      rw [recognizer]
      exact hcall slot

theorem sound_recognizers (hcall : ∀ slot, (call slot).Sound) :
    ∀ parts : List Rule, ∀ p ∈ recognizers call parts, p.Sound
  | [] => by
      intro p hp
      cases hp
  | r :: rest => by
      intro p hp
      rw [recognizers] at hp
      rcases List.mem_cons.mp hp with rfl | hp
      · exact sound_recognizer hcall r
      · exact sound_recognizers hcall rest p hp

theorem sound_recognizer? (hcall : ∀ slot, (call slot).Sound) :
    ∀ part : Option Rule, ∀ p ∈ recognizer? call part, p.Sound
  | none => by
      intro p hp
      cases hp
  | some r => by
      intro p hp
      rw [recognizer?] at hp
      obtain rfl := Option.some.inj hp
      exact sound_recognizer hcall r

end

/-! ## Rules with forwards -/

/-- So each slot is, with however many slots open. By induction on their number, by `sound_recognizer` of
    the rule that the slot leads to. -/
theorem sound_through (resolve : Slot → Target) (depth : Nat) (slot : Slot) :
    (through resolve depth slot).Sound := by
  induction depth generalizing slot with
  | zero =>
      intro t pos ans h
      cases h
  | succ depth ih =>
      unfold through
      split
      · intro t pos ans h
        cases h
      · intro t pos ans h
        cases h
      next r _ => exact sound_recognizer ih r

/-- `parse` is `Sound` for every rule, with whatever its slots lead to. -/
theorem sound_parse (resolve : Slot → Target) (slots : Nat) (r : Rule) :
    (r.parse resolve slots).Sound := by
  intro t pos ans h
  exact sound_recognizer (sound_through resolve _) r t pos ans h

/-- **Soundness.** What an answer of `parse` says. Past the end of the text there is none. At a cut of the
    text the element starts no earlier than the position and is `Element.Sound`: it and everything in it
    lies where it says, and its parts follow one another inside its span. Inside a character the element
    is invalid. -/
theorem sound_of_parse {resolve : Slot → Target} {slots : Nat} {r : Rule} {t : Text} {pos : Nat}
    {ans : Option Element} (h : (r.parse resolve slots t pos).result = .ok ans) :
    (t.size < pos → ans = none) ∧
      (t.isBoundary pos = true → ∀ e, ans = some e → pos ≤ e.span.start ∧ e.Sound t) ∧
      (t.isBoundary pos = false → ∀ e, ans = some e → e.isValid = false) := by
  have hanswer := sound_parse resolve slots r t pos ans h
  refine ⟨?_, ?_, ?_⟩
  · intro hpast
    cases ans with
    | none => rfl
    | some e =>
        have := le_size_of_some hanswer
        omega
  · rintro hpos e rfl
    exact sound_of_boundary hanswer hpos
  · rintro hinside e rfl
    rw [Element.isValid, (misplaced_of_inside hanswer hinside).extent_eq]
    rfl

/-- A word in any number of parentheses; the rule is what its forward points to. -/
def parenthesised : Rule :=
  .choice [.join [.symbol ['('], .forward 0, .symbol [')']], .word]

/-- `sound_of_parse` for a rule that leads back to itself, at a cut behind a character of two bytes. -/
theorem sound_of_parse_parenthesised : ∃ e,
    (parenthesised.parse (fun _ => .rule parenthesised) 1 ['é', '(', ' ', 'x', ')'] 2).result
        = .ok (some e) ∧
      2 ≤ e.span.start ∧ e.Sound ['é', '(', ' ', 'x', ')'] := by
  have h : (parenthesised.parse (fun _ => .rule parenthesised) 1 ['é', '(', ' ', 'x', ')'] 2).result
      = .ok (some _) := rfl
  exact ⟨_, h, (sound_of_parse h).2.1 rfl _ rfl⟩

end Rule

end Graft
