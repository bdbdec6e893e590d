import Graft.Proofs.Recognizer.LocalList
import Graft.Proofs.Rule

/-!
# `Graft.Proofs.Rule.Local` — rules see only what lies ahead

What a rule answers at a cut of a text is what it answers for the rest of the text on its own, with
every position moved by the length of what was cut off (`Rule.parse_shift`). Nothing that stands before
the cut has a say in it, through however many forwards the rule leads.

The induction is the one that shows rules sound: the forwards are taken to be local while a rule is
taken apart, and then the forwards that may still be open are counted. How many those are at first
follows from the text ahead.
-/

namespace Graft

namespace Rule

open Recognizer

/-! ## Rules whose forwards are local -/

variable {call : Slot → Recognizer}

mutual

/-- A rule is `Local` where its forwards are. One case for each constructor of `Rule`. -/
theorem local_recognizer (hsound : ∀ slot, (call slot).Sound) (hlocal : ∀ slot, (call slot).Local) :
    ∀ r : Rule, (recognizer call r).Local
  | empty => by
      rw [recognizer]
      exact local_empty
  | space => by
      rw [recognizer]
      exact local_ofProgram _ fun _ _ => by rw [Element.shift]
  | word => by
      rw [recognizer]
      exact local_ofProgram _ fun _ _ => by rw [Element.shift]
  | dottedWord => by
      rw [recognizer]
      exact local_ofProgram _ fun _ _ => by rw [Element.shift]
  | string => by
      rw [recognizer]
      exact local_string
  | number => by
      rw [recognizer]
      exact local_number
  | bool => by
      rw [recognizer]
      exact local_bool
  | plain literal => by
      rw [recognizer]
      exact local_plain literal
  | symbol literal => by
      rw [recognizer]
      exact local_symbol literal
  | pattern p => by
      rw [recognizer]
      exact local_ofProgram p fun _ _ => by rw [Element.shift]
  | join parts => by
      rw [recognizer]
      exact local_join (sound_recognizers hsound parts) (local_recognizers hsound hlocal parts)
  | choice alternatives => by
      rw [recognizer]
      exact local_choice (local_recognizers hsound hlocal alternatives)
  | group parts => by
      rw [recognizer]
      exact local_group (sound_recognizers hsound parts) (local_recognizers hsound hlocal parts)
  | optional part => by
      rw [recognizer]
      exact local_optional (local_recognizer hsound hlocal part)
  | list item separator opening closing allowTrailing allowEmpty => by
      rw [recognizer]
      exact local_list (sound_recognizer hsound item) (sound_recognizer hsound separator)
        (sound_recognizer? hsound opening) (sound_recognizer? hsound closing)
        (local_recognizer hsound hlocal item) (local_recognizer hsound hlocal separator)
        (local_recognizer? hsound hlocal opening) (local_recognizer? hsound hlocal closing)
  | typeName own name => by
      rw [recognizer]
      exact local_typeName (sound_recognizer hsound name) (hsound own)
        (local_recognizer hsound hlocal name) (hlocal own)
  | forward slot => by
      rw [recognizer]
      exact hlocal slot

/-- `local_recognizer` for rules in a row. -/
theorem local_recognizers (hsound : ∀ slot, (call slot).Sound)
    (hlocal : ∀ slot, (call slot).Local) :
    ∀ parts : List Rule, ∀ p ∈ recognizers call parts, p.Local
  | [] => by
      intro p hp
      cases hp
  | r :: rest => by
      intro p hp
      rw [recognizers] at hp
      rcases List.mem_cons.mp hp with rfl | hp
      · exact local_recognizer hsound hlocal r
      · exact local_recognizers hsound hlocal rest p hp

/-- `local_recognizer` for a rule that may be missing. -/
theorem local_recognizer? (hsound : ∀ slot, (call slot).Sound)
    (hlocal : ∀ slot, (call slot).Local) :
    ∀ part : Option Rule, ∀ p ∈ recognizer? call part, p.Local
  | none => by
      intro p hp
      cases hp
  | some r => by
      intro p hp
      rw [recognizer?] at hp
      obtain rfl := Option.some.inj hp
      exact local_recognizer hsound hlocal r

end

/-! ## Rules with forwards -/

/-- So each slot is `Local`, with however many slots open. By induction on their number. -/
theorem local_through (resolve : Slot → Target) (depth : Nat) (slot : Slot) :
    (through resolve depth slot).Local := by
  induction depth generalizing slot with
  | zero =>
      intro t rest pos _
      rfl
  | succ depth ih =>
      unfold through
      split
      · intro t rest pos _
        rfl
      · intro t rest pos _
        rfl
      next r _ => exact local_recognizer (sound_through resolve depth) ih r

/-- **Locality.** `parse` at a cut of a text has the result that it has at the start of the rest of the
    text: the same halt, no match, or the same element, by `Element.shift` at every depth. -/
theorem parse_shift (resolve : Slot → Target) (slots : Nat) (r : Rule) {t rest : Text} {pos : Nat}
    (h : t.from? pos = some rest) :
    (r.parse resolve slots t pos).result
      = (r.parse resolve slots rest 0).result.map (Option.map (Element.shift pos)) := by
  have hahead : t.ahead pos = rest.ahead 0 := by
    rw [Text.ahead_of_from? h, Text.ahead_of_from? (Text.from?_zero rest)]
  rw [parse, parse, hahead]
  exact local_recognizer (sound_through resolve _) (local_through resolve _) r h

/-- `parse_shift` for a rule that leads back to itself, behind a character of two bytes. -/
theorem parse_shift_parenthesised :
    Text.from? ['é', '(', ' ', 'x', ')'] 2 = some ['(', ' ', 'x', ')'] ∧ ∃ e,
      (parenthesised.parse (fun _ => .rule parenthesised) 1 ['(', ' ', 'x', ')'] 0).result
          = .ok (some e) ∧
        (parenthesised.parse (fun _ => .rule parenthesised) 1 ['é', '(', ' ', 'x', ')'] 2).result
          = .ok (some (e.shift 2)) := by
  have hrest : Text.from? ['é', '(', ' ', 'x', ')'] 2 = some ['(', ' ', 'x', ')'] := rfl
  have h : (parenthesised.parse (fun _ => .rule parenthesised) 1 ['(', ' ', 'x', ')'] 0).result
      = .ok (some _) := rfl
  refine ⟨hrest, _, h, ?_⟩
  rw [parse_shift _ _ _ hrest, h]
  rfl

end Rule

end Graft
