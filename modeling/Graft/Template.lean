import Graft.Revision

/-!
# `Graft.Template` — replacements put together from parts

A template lists the parts of a replacement: fixed texts, and texts taken from the construct. If a part
is absent from the construct, the template leaves the construct as it is; the parts after it are not
looked at, while the refusals of those before it are handed on.
-/

namespace Graft

/-- One part of a replacement. -/
inductive Part
  /-- A fixed text. -/
  | text (s : Text)
  /-- A part that no construct has. -/
  | absent
  /-- The text of the construct. -/
  | content
  /-- The text of the construct with what was skipped before it. -/
  | covered
  | indentation
  /-- The text of the interior. -/
  | interior
  /-- The text from the end of the interior to the end of the construct. -/
  | closing
  /-- The content of the header, or of the element reached from it by slot numbers. -/
  | header (path : List Nat)
  /-- Nothing, for constructs whose header has this content; others do not have the part. -/
  | only (s : Text)
  /-- Nothing, for constructs whose header has another content. -/
  | except (s : Text)
  /-- The interior, or the whole construct without one, after a revision of its own. -/
  | nested (l : Locator) (parts : List Part)
  /-- The interior after some edits. -/
  | edits (list : List Edit)

namespace Part

/-- A part that is there and hands on nothing. -/
def found (s : Text) : Traced Reply :=
  return ⟨some s, []⟩

/-- A part that may be there and hands on nothing. -/
def maybe (s : Option Text) : Traced Reply :=
  return ⟨s, []⟩

/-- A part that is an outcome: its text, and its refusals handed on. -/
def ofOutcome (o : Outcome) : Traced Reply :=
  return ⟨some o.text, o.refusals⟩

/-- The interior of a construct after some edits. -/
def edited (t : Text) (b : Block) (edits : List Edit) : Traced Reply :=
  match b.interior? with
  | none => maybe none
  | some i => do
      let d ← (Draft.ofWindow t i.start i.stop).updateAll edits
      let text ← Traced.ofSlice d.digest?
      ofOutcome ⟨text, d.refusals⟩

/-- The text from the end of the interior on. -/
def closingText (t : Text) (b : Block) : Traced Reply :=
  match b.interior? with
  | none => maybe none
  | some i => do found (← Traced.ofSlice (t.slice? i.stop b.stop))

mutual

/-- What a part stands for in a construct. -/
def reply (t : Text) : Part → Block → Traced Reply
  | text s, _ => found s
  | absent, _ => maybe none
  | content, b => do found (← Traced.ofSlice (b.content? t))
  | covered, b => do found (← Traced.ofSlice (b.covered? t))
  | indentation, b => found b.indentation
  | interior, b => maybe (b.interiorContent? t)
  | closing, b => closingText t b
  | header path, b => maybe ((b.header.descendant? path).bind (·.content? t))
  | only s, b => maybe (if b.header.content? t = some s then some [] else none)
  | except s, b => maybe (if b.header.content? t = some s then none else some [])
  | nested l parts, b => do
      let window := b.interior?.getD ⟨b.start, b.stop⟩
      ofOutcome (← revise t window.start window.stop l (fun inner => replyAll t parts inner))
  | edits list, b => edited t b list

/-- What some parts stand for, one after the other. -/
def replyAll (t : Text) : List Part → Block → Traced Reply
  | [], _ => found []
  | p :: rest, b => do
      let first ← reply t p b
      match first.replacement with
      | none => return first
      | some s => do
          let others ← replyAll t rest b
          return ⟨others.replacement.map (s ++ ·), first.refusals ++ others.refusals⟩

end

end Part

/-- The transform of a template. -/
def Transform.ofTemplate (t : Text) (parts : List Part) : Transform :=
  Part.replyAll t parts

end Graft
