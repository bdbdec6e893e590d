import Graft.Proofs.Recognizer.Flush
import Graft.Proofs.Rule

/-!
# `Graft.Proofs.Rule.Flush` — rules that pass over white space first

Whether a rule passes over white space before anything else can be read off its form (`Rule.Flush`): it
depends on what stands first in it. What such a rule answers starts with the first character from the
position on that is not white space (`Rule.flush_parse`).

White space itself, the empty rule and optional parts are not of this form, and neither is a sequence
that begins with one of them.
-/

namespace Graft

namespace Rule

open Recognizer

/-- A rule with a part in front that passes over white space. Forwards are told by their slots, and
    user patterns by what they answer. -/
inductive Flush (F : Slot → Prop) : Rule → Prop
  | word : Flush F .word
  | dottedWord : Flush F .dottedWord
  | string : Flush F .string
  | number : Flush F .number
  | bool : Flush F .bool
  | plain {literal : Text} (h : ∃ c, literal.head? = some c ∧ Unicode.IsVisible c) :
      Flush F (.plain literal)
  | symbol {literal : Text} (h : ∃ c, literal.head? = some c ∧ Unicode.IsVisible c) :
      Flush F (.symbol literal)
  | pattern {p : Regex.Program} (h : (Recognizer.pattern p).Flush) : Flush F (.pattern p)
  | join {first : Rule} {rest : List Rule} (h : Flush F first) : Flush F (.join (first :: rest))
  | choice {alternatives : List Rule} (h : ∀ r ∈ alternatives, Flush F r) :
      Flush F (.choice alternatives)
  | group {parts : List Rule} (h : ∀ r ∈ parts, Flush F r) : Flush F (.group parts)
  /-- A list without an opening bracket starts with its first item. -/
  | items {item separator : Rule} {closing : Option Rule} {allowTrailing allowEmpty : Bool}
      (h : Flush F item) :
      Flush F (.list item separator none closing allowTrailing allowEmpty)
  | bracketed {item separator opening : Rule} {closing : Option Rule}
      {allowTrailing allowEmpty : Bool} (h : Flush F opening) :
      Flush F (.list item separator (some opening) closing allowTrailing allowEmpty)
  | typeName {own : Slot} {name : Rule} (h : Flush F name) : Flush F (.typeName own name)
  | forward {slot : Slot} (h : F slot) : Flush F (.forward slot)

variable {F : Slot → Prop} {call : Slot → Recognizer}

theorem exists_of_mem_recognizers {parts : List Rule} {p : Recognizer}
    (h : p ∈ recognizers call parts) : ∃ r ∈ parts, p = recognizer call r := by
  induction parts with
  | nil => cases h
  | cons r rest ih =>
      rw [recognizers] at h
      rcases List.mem_cons.mp h with rfl | h
      · exact ⟨r, List.mem_cons_self .., rfl⟩
      · obtain ⟨r', hr', rfl⟩ := ih h
        exact ⟨r', List.mem_cons_of_mem _ hr', rfl⟩

/-- A rule that is `Rule.Flush` gives a recogniser that is, where its forwards are. By induction on
    `Rule.Flush`. -/
theorem flush_recognizer (hsound : ∀ slot, (call slot).Sound)
    (hcall : ∀ slot, F slot → (call slot).Flush) {r : Rule} (h : r.Flush F) :
    (recognizer call r).Flush := by
  induction h with
  | word =>
      rw [recognizer]
      exact flush_word
  | dottedWord =>
      rw [recognizer]
      exact flush_dottedWord
  | string =>
      rw [recognizer]
      exact flush_string
  | number =>
      rw [recognizer]
      exact flush_number
  | bool =>
      rw [recognizer]
      exact flush_bool
  | plain hliteral =>
      rw [recognizer]
      exact flush_plain hliteral
  | symbol hliteral =>
      rw [recognizer]
      exact flush_symbol hliteral
  | pattern hpattern =>
      rw [recognizer]
      exact hpattern
  | @join first rest _ ih =>
      rw [recognizer, recognizers]
      refine flush_join ih ?_
      have hparts := sound_recognizers hsound (first :: rest)
      rwa [recognizers] at hparts
  | choice _ ih =>
      rw [recognizer]
      refine flush_choice fun p hp => ?_
      obtain ⟨r, hr, rfl⟩ := exists_of_mem_recognizers hp
      exact ih r hr
  | group _ ih =>
      rw [recognizer]
      refine flush_group (fun p hp => ?_) (sound_recognizers hsound _)
      obtain ⟨r, hr, rfl⟩ := exists_of_mem_recognizers hp
      exact ih r hr
  | items _ ih =>
      rw [recognizer]
      exact flush_list (sound_recognizer hsound _) (sound_recognizer hsound _)
        (sound_recognizer? hsound _) (sound_recognizer? hsound _) (.inl ⟨by rw [recognizer?], ih⟩)
  | @bracketed _ _ opening _ _ _ _ ih =>
      rw [recognizer]
      exact flush_list (sound_recognizer hsound _) (sound_recognizer hsound _)
        (sound_recognizer? hsound _) (sound_recognizer? hsound _)
        (.inr ⟨recognizer call opening, by rw [recognizer?], ih⟩)
  | typeName _ ih =>
      rw [recognizer]
      exact flush_typeName ih (sound_recognizer hsound _) (hsound _)
  | forward hslot =>
      rw [recognizer]
      exact hcall _ hslot

/-- So each slot that `F` holds does, with however many slots open. -/
theorem flush_through {resolve : Slot → Target}
    (hresolve : ∀ slot r, F slot → resolve slot = .rule r → r.Flush F) (depth : Nat) {slot : Slot}
    (hslot : F slot) : (through resolve depth slot).Flush := by
  induction depth generalizing slot with
  | zero =>
      intro t pos e _ h
      cases h
  | succ depth ih =>
      unfold through
      split
      · intro t pos e _ h
        cases h
      · intro t pos e _ h
        cases h
      next r hr =>
        exact flush_recognizer (sound_through resolve depth) (fun _ => ih) (hresolve slot r hslot hr)

/-- `parse` of a `Flush` rule only answers flush elements, if the slots that it may be flush through lead
    to flush rules. -/
theorem flush_parse {resolve : Slot → Target}
    (hresolve : ∀ slot r, F slot → resolve slot = .rule r → r.Flush F) (slots : Nat) {r : Rule}
    (h : r.Flush F) : (r.parse resolve slots).Flush := by
  intro t pos e hpos hresult
  exact flush_recognizer (sound_through resolve _) (fun _ => flush_through hresolve _) h t pos e hpos
    hresult

end Rule

end Graft
