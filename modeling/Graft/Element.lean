import Graft.Traced

/-!
# `Graft.Element` — what rules recognise

An element is the result of a match: where it lies, and what its kind of rule found out about it.
Elements nest; a missed part of a group leaves an empty slot. Elements hold positions only, so that
texts are read off the text they were found in.

## Contents
- `Element` with `kind`, `extent` and the positions that it reports.
- Views: `items?`, `slots?`, `child?`, `arguments`.
- Builders that turn positions into extents and note the ones that make none: `Extent.ofRange`,
  `Element.ofJoin`, `Element.ofName`, `Element.ofGeneric`.
-/

namespace Graft

/-- The result of a match. -/
inductive Element
  /-- A literal, a pattern, white space, nothing, or a part that was left out. -/
  | basic (extent : Extent)
  /-- A literal after white space. -/
  | symbol (extent : Extent)
  /-- An identifier. -/
  | word (extent : Extent)
  /-- Identifiers joined by dots. -/
  | dottedWord (extent : Extent)
  /-- A quoted literal: the range between its quotes, and whether it is marked as raw. -/
  | string (extent : Extent) (inner : Span) (raw : Bool)
  /-- A number: the texts of its integer part and of its fraction. -/
  | number (extent : Extent) (integer : Text) (fraction : Option Text)
  /-- A truth value. -/
  | bool (extent : Extent) (value : Bool)
  /-- Parts one after the other. -/
  | join (extent : Extent) (items : List Element)
  /-- Separated items, and whether a separator follows the last of them. -/
  | list (extent : Extent) (items : List Element) (trailing : Bool)
  /-- Parts that may each be missing. -/
  | group (extent : Extent) (slots : List (Option Element))
  /-- A type name without arguments. -/
  | typeName (extent name : Extent)
  /-- A type name with arguments: the list of them, brackets included. -/
  | genericName (extent name arguments : Extent) (items : List Element) (trailing : Bool)
deriving Repr

namespace Element

/-- The name of the kind of an element. -/
def kind : Element → String
  | basic _ => "basic"
  | symbol _ => "symbol"
  | word _ => "word"
  | dottedWord _ => "dotted word"
  | string .. => "string"
  | number .. => "number"
  | bool .. => "bool"
  | join .. => "join"
  | list .. => "list"
  | group .. => "one-or-more"
  | typeName .. | genericName .. => "type name"

/-- Where an element lies. -/
def extent : Element → Extent
  | basic e | symbol e | word e | dottedWord e | string e .. | number e .. | bool e _ | join e _
  | list e .. | group e _ | typeName e _ | genericName e .. => e

/-- Where the content of an element starts. -/
def start (e : Element) : Nat :=
  e.extent.start

/-- Where the content of an element ends. -/
def stop (e : Element) : Nat :=
  e.extent.stop

/-- Everything that an element took up. -/
def span (e : Element) : Span :=
  e.extent.span

/-- Whether an element has a place in the text. -/
def isValid (e : Element) : Bool :=
  e.extent.isValid

/-- Whether the content is empty, as it is for a part that was left out. -/
def isEmpty (e : Element) : Bool :=
  e.start = e.stop

/-- The text of the content. -/
def content? (t : Text) (e : Element) : Option Text :=
  e.extent.content? t

/-- The text of the span. -/
def covered? (t : Text) (e : Element) : Option Text :=
  e.extent.covered? t

/-! ## Views -/

/-- The parts of a join, or the items of a list. -/
def items? : Element → Option (List Element)
  | join _ items => some items
  | list _ items _ => some items
  | _ => none

/-- The slots of a join, a list or a group. Only a group has empty ones. -/
def slots? : Element → Option (List (Option Element))
  | join _ items => some (items.map some)
  | list _ items _ => some (items.map some)
  | group _ slots => some slots
  | _ => none

/-- The element in the slot of the given number. -/
def child? (e : Element) (i : Nat) : Option Element :=
  (e.slots?.bind (·[i]?)).join

/-- The element reached by slot numbers, one level deeper with each. -/
def descendant? (e : Element) : List Nat → Option Element
  | [] => some e
  | i :: path => (e.child? i).bind (·.descendant? path)

/-- The name of a type name. -/
def name? : Element → Option Extent
  | typeName _ name => some name
  | genericName _ name .. => some name
  | _ => none

/-- Whether an element is a type name. -/
def isTypeName (e : Element) : Bool :=
  e.name?.isSome

/-- The arguments of a type name: those items of its list that are type names themselves. -/
def arguments : Element → List Element
  | genericName _ _ _ items _ => items.filter isTypeName
  | _ => []

end Element

/-! ## Builders -/

/-- The extent of four positions. Positions that make none give the invalid extent and are noted. -/
def Extent.ofRange (t : Text) (start stop : Nat) (span : Span) : Traced Extent :=
  match Bounds.check t start stop span with
  | .ok b => pure ⟨some b⟩
  | .error reason => do
      Traced.note (.invalidElement reason)
      pure .invalid

/-- The extent from the first of some elements to the last. Without elements it is invalid. -/
def Extent.ofItems (t : Text) (items : List Element) (span : Span) : Traced Extent :=
  match items.head?, items.getLast? with
  | some first, some last => Extent.ofRange t first.start last.stop span
  | _, _ => pure .invalid

/-- Parts one after the other, from the start of the first to the end of the last. -/
def Element.ofJoin (t : Text) (items : List Element) (span : Span) : Traced Element :=
  return .join (← Extent.ofItems t items span) items

/-- A type name without arguments: its content is the name. -/
def Element.ofName (t : Text) (name : Extent) (span : Span) : Traced Element :=
  return .typeName (← Extent.ofRange t name.start name.stop span) name

/-- A type name with arguments: its content runs to the end of what the arguments took up. -/
def Element.ofGeneric (t : Text) (name arguments : Extent) (items : List Element) (trailing : Bool)
    (span : Span) : Traced Element :=
  return .genericName (← Extent.ofRange t name.start arguments.span.stop span) name arguments items trailing

end Graft
