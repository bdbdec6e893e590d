import Graft.Recognizer.Combinator

/-!
# `Graft.Rule` — rules that may refer to themselves

A rule is a tree of recognisers and combinators. Where a rule has to contain itself, the tree holds a
*forward*: a numbered slot that points to a rule from outside. What a slot points to may be missing,
because it was never set or because its target is gone; a rule that meets such a slot ends its run.

## Contents
- `Rule` and `Rule.recognizer`: what a rule recognises, given what its slots recognise.
- `Target` and `Rule.through`: following slots, with a bound on how many are open at once.
- `Rule.depthBound`: a bound that is exceeded only by rules that lead back to themselves in place.
-/

namespace Graft

/-- The number of a forward's slot. -/
abbrev Slot := Nat

/-- A tree of recognisers. -/
inductive Rule
  | empty
  | space
  | word
  | dottedWord
  | string
  | number
  | bool
  | plain (literal : Text)
  | symbol (literal : Text)
  | pattern (program : Regex.Program)
  | join (parts : List Rule)
  | choice (alternatives : List Rule)
  | group (parts : List Rule)
  | optional (part : Rule)
  | list (item separator : Rule) (opening closing : Option Rule)
      (allowTrailing allowEmpty : Bool)
  /-- A type name; its own slot is where its arguments come from. -/
  | typeName (own : Slot) (name : Rule)
  | forward (slot : Slot)
deriving Repr

namespace Rule

variable (call : Slot → Recognizer)

mutual

/-- What a rule recognises, when the slots recognise what `call` says. -/
def recognizer : Rule → Recognizer
  | empty => .empty
  | space => .space
  | word => .word
  | dottedWord => .dottedWord
  | string => .string
  | number => .number
  | bool => .bool
  | plain literal => .plain literal
  | symbol literal => .symbol literal
  | pattern p => .pattern p
  | join parts => .join (recognizers parts)
  | choice alternatives => .choice (recognizers alternatives)
  | group parts => .group (recognizers parts)
  | optional part => .optional (recognizer part)
  | list item separator opening closing allowTrailing allowEmpty => .list
      { item := recognizer item
        separator := recognizer separator
        opening := recognizer? opening
        closing := recognizer? closing
        allowTrailing := allowTrailing
        allowEmpty := allowEmpty }
  | typeName own name => .typeName (recognizer name) (call own)
  | forward slot => call slot

/-- What some rules recognise. -/
def recognizers : List Rule → List Recognizer
  | [] => []
  | r :: rest => recognizer r :: recognizers rest

/-- What a rule recognises, if there is one. -/
def recognizer? : Option Rule → Option Recognizer
  | none => none
  | some r => some (recognizer r)

end

/-- What a slot points to. -/
inductive Target
  /-- The slot was never set. -/
  | undefined
  /-- The rule that it was set to is gone. -/
  | dropped
  | rule (r : Rule)

/-- What a slot recognises when at most `depth` slots may be open at once. -/
def through (resolve : Slot → Target) : Nat → Slot → Recognizer
  | 0, _ => fun _ _ => .halt .endless
  | depth + 1, slot =>
      match resolve slot with
      | .undefined => fun _ _ => .raise .undefinedForward
      | .dropped => fun _ _ => .raise .droppedForward
      | .rule r => r.recognizer (through resolve depth)

/-- How many slots may be open at once with a text ahead. Each of them was opened at some position; one
    opened twice at the same position would be opened there forever. -/
def depthBound (slots : Nat) (ahead : Text) : Nat :=
  slots * (ahead.size + 2) + 1

/-- What a rule recognises in a text, with that many slots in all. -/
def parse (resolve : Slot → Target) (slots : Nat) (r : Rule) : Recognizer := fun t pos =>
  r.recognizer (through resolve (depthBound slots (t.ahead pos))) t pos

end Rule

end Graft
