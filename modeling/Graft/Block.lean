import Graft.Element.Inspect

/-!
# `Graft.Block` — located constructs

A block is a construct that was found in a text: its header, the indentation of the line that the
header starts on, and the interior between the header and what closes the construct.
-/

namespace Graft

/-- A construct found in a text. -/
structure Block where
  /-- Where the content of the header starts. -/
  start : Nat
  /-- Where the construct ends. -/
  stop : Nat
  /-- The construct together with what was skipped before its header. -/
  span : Span
  /-- The spaces and tabs at the start of the line that the header starts on. -/
  indentation : Text
  header : Element
  /-- What lies between the header and the end of the construct, if it has an inside. -/
  interior? : Option Span
deriving Repr

namespace Block

/-- The text of the construct. -/
def content? (t : Text) (b : Block) : Option Text :=
  t.slice? b.start b.stop

/-- The text of the construct together with what was skipped before it. -/
def covered? (t : Text) (b : Block) : Option Text :=
  t.slice? b.span.start b.span.stop

/-- The text of the interior. -/
def interiorContent? (t : Text) (b : Block) : Option Text :=
  b.interior?.bind fun i => t.slice? i.start i.stop

/-- The written form of a block. -/
def inspect (t : Text) (b : Block) : String :=
  Element.inspectFields "Block"
    [("start", toString b.start), ("end", toString b.stop), ("span", b.span.inspectRange),
     ("indentation", Element.inspectPlain b.indentation),
     ("header", Extent.inspectText (b.header.content? t)),
     ("interior", match b.interior? with
        | none => "None"
        | some i => Element.inspectVariant "Some" i.inspectRange)]

end Block

end Graft
