import Graft.Recognizer

/-!
# `Graft.Recognizer.Combinator` — recognisers made of recognisers

Each part starts where what the part before took up has ended. The combinators say nothing about where
their parts come from, so laws about them hold for any parts.

## Contents
- `join`, `choice`, `group`, `optional`: sequences, ordered choices and parts that may be missing.
- `ListShape` and `list`: separated items, with or without brackets.
- `typeName`: a name, perhaps with a bracketed list of arguments.
-/

namespace Graft.Recognizer

/-! ## Sequences and choices -/

/-- Elements of all parts, each starting where the span before it ends, and the end of the last. -/
def runAll (t : Text) : List Recognizer → Nat → Traced (Option (List Element × Nat))
  | [], pos => pure (some ([], pos))
  | p :: parts, pos => do
      match ← p t pos with
      | none => pure none
      | some e =>
          match ← runAll t parts e.span.stop with
          | none => pure none
          | some (items, stop) => pure (some (e :: items, stop))

/-- All parts, one after the other. Without parts nothing matches. -/
def join (parts : List Recognizer) : Recognizer := fun t pos =>
  if parts.isEmpty then pure none
  else do
    match ← runAll t parts pos with
    | none => pure none
    | some (items, stop) => return some (← Element.ofJoin t items ⟨pos, stop⟩)

/-- The first of some alternatives that matches. -/
def choice : List Recognizer → Recognizer
  | [], _, _ => pure none
  | p :: rest, t, pos => do
      match ← p t pos with
      | some e => pure (some e)
      | none => choice rest t pos

/-- Elements of the parts that match, each starting where the one before it ended, and the end of the
    last. A part that does not match leaves its slot empty. -/
def runSlots (t : Text) : List Recognizer → Nat → Traced (List (Option Element) × Nat)
  | [], pos => pure ([], pos)
  | p :: parts, pos => do
      let slot ← p t pos
      let next := (slot.map fun e => e.span.stop).getD pos
      let (slots, stop) ← runSlots t parts next
      return (slot :: slots, stop)

/-- Each part once and in order, where it matches; at least one of them has to. -/
def group (parts : List Recognizer) : Recognizer := fun t pos => do
  let (slots, stop) ← runSlots t parts pos
  let present := slots.filterMap id
  match present.head?, present.getLast? with
  | some first, some last =>
      return some (.group (← Extent.ofRange t first.start last.stop ⟨pos, stop⟩) slots)
  | _, _ => return none

/-- The part, or an empty match where it does not match. -/
def optional (part : Recognizer) : Recognizer := fun t pos =>
  if t.size < pos then pure none
  else do
    match ← part t pos with
    | some e => return some e
    | none => return some (.basic (← Extent.ofRange t pos pos ⟨pos, pos⟩))

/-! ## Separated lists -/

/-- What a list is made of. Both brackets together allow a list to be empty, unless `allowEmpty` is
    off. A separator after the last item is taken up only with `allowTrailing`. -/
structure ListShape where
  item : Recognizer
  separator : Recognizer
  opening : Option Recognizer
  closing : Option Recognizer
  allowTrailing : Bool
  allowEmpty : Bool

/-- Where a token ends: what it took up, and its content. -/
structure TokenEnd where
  taken : Nat
  stop : Nat
deriving DecidableEq, Repr

/-- Where an element ends. -/
def TokenEnd.of (e : Element) : TokenEnd :=
  ⟨e.span.stop, e.stop⟩

/-- The items of a list read so far. -/
structure ItemRun where
  items : List Element
  /-- The end of the last item. -/
  item : TokenEnd
  /-- The end of the last item or separator. -/
  last : TokenEnd
  /-- Whether that is a separator. -/
  trailing : Bool
deriving Repr

namespace ItemRun

/-- Before the first item. -/
def start (pos : Nat) : ItemRun :=
  ⟨[], ⟨pos, pos⟩, ⟨pos, pos⟩, false⟩

/-- After one more item. -/
def addItem (run : ItemRun) (e : Element) : ItemRun :=
  ⟨run.items ++ [e], .of e, .of e, false⟩

/-- After one more separator. -/
def addSeparator (run : ItemRun) (e : Element) : ItemRun :=
  { run with last := .of e, trailing := true }

/-- Without a separator after the last item. -/
def trim (run : ItemRun) : ItemRun :=
  { run with last := run.item, trailing := false }

end ItemRun

/-- Items and separators in turn, until one of them does not match or a separator ends where its item
    began. The bound is the number of items that can still be read; texts end before it does. -/
def runItems (t : Text) (item separator : Recognizer) : Nat → ItemRun → Traced ItemRun
  | 0, _ => .halt .endless
  | bound + 1, run => do
      match ← item t run.last.taken with
      | none => return run
      | some e =>
          let next := run.addItem e
          match ← separator t next.last.taken with
          | none => return next
          | some s =>
              if s.span.stop = run.last.taken then return next
              else runItems t item separator bound (next.addSeparator s)

namespace ListShape

/-- Whether a list may have no items. -/
def mayBeEmpty (shape : ListShape) : Bool :=
  shape.opening.isSome && shape.closing.isSome && shape.allowEmpty

/-- Reads the opening bracket: where its content starts and where it ends. Without one the items begin
    at the position itself. -/
def open? (shape : ListShape) (t : Text) (pos : Nat) : Traced (Option (Option Nat × Nat)) :=
  match shape.opening with
  | none => return some (none, pos)
  | some p => do
      match ← p t pos with
      | none => return none
      | some e => return some (some e.start, e.span.stop)

/-- Reads the closing bracket, or settles where a list without one ends: the items, and the end of the
    list. -/
def close? (shape : ListShape) (t : Text) (run : ItemRun) :
    Traced (Option (ItemRun × TokenEnd)) :=
  let unwanted := run.trailing && !shape.allowTrailing
  match shape.closing with
  | none =>
      let run := if unwanted then run.trim else run
      return some (run, run.last)
  | some p =>
      if unwanted then return none
      else do
        match ← p t run.last.taken with
        | none => return none
        | some e => return some (run, .of e)

end ListShape

/-- How many items a list that starts at a position may read. Every item but the first comes after a
    separator that ends later than the one before. -/
def itemBound (t : Text) (pos : Nat) : Nat :=
  Text.size (t.ahead pos) + 3

/-- A separated list. -/
def list (shape : ListShape) : Recognizer := fun t pos => do
  match ← shape.open? t pos with
  | none => return none
  | some (start?, begin) =>
      let run ← runItems t shape.item shape.separator (itemBound t pos) (.start begin)
      if run.items.isEmpty && !shape.mayBeEmpty then return none
      else
        match ← shape.close? t run with
        | none => return none
        | some (run, stop) =>
            match start? <|> run.items.head?.map Element.start with
            | none => return none
            | some start =>
                let extent ← Extent.ofRange t start stop.stop ⟨pos, stop.taken⟩
                return some (.list extent run.items run.trailing)

/-! ## Type names -/

/-- The kind of an element that may be missing. -/
def kindOf : Option Element → String
  | none => "nothing"
  | some e => e.kind

/-- A type name from a word, or from a word followed by a list. Elements of any other shape come from
    a grammar that is wired incorrectly. -/
def asTypeName (t : Text) : Element → Traced Element
  | .word name => Element.ofName t name name.span
  | .dottedWord name => Element.ofName t name name.span
  | .join e [.word name, .list arguments items trailing] =>
      Element.ofGeneric t name arguments items trailing e.span
  | .join e [.dottedWord name, .list arguments items trailing] =>
      Element.ofGeneric t name arguments items trailing e.span
  | .join _ items =>
      .raise (.unexpectedShape "type name" "a name followed by an argument list"
        ("join of " ++ kindOf items[0]? ++ " and " ++ kindOf items[1]?))
  | e => .raise (.unexpectedShape "type name" "a name or a name with arguments" e.kind)

/-- The bracketed arguments of a type name, each of them read by `argument`. -/
def arguments (argument : Recognizer) : Recognizer :=
  list
    { item := argument
      separator := symbol [',']
      opening := some (symbol ['<'])
      closing := some (symbol ['>'])
      allowTrailing := true
      allowEmpty := false }

/-- A name with arguments or, where that does not match, the name alone. -/
def typeName (name argument : Recognizer) : Recognizer := fun t pos => do
  match ← choice [join [name, arguments argument], name] t pos with
  | none => return none
  | some e => return some (← asTypeName t e)

end Graft.Recognizer
