import Graft.Block
import Graft.Recognizer
import Graft.Text.Lines

/-!
# `Graft.Locator` — finding constructs

A locator finds constructs that begin at a given position. A *block* locator recognises a header and
then looks for what closes the construct: a line that holds the indentation of the header and a marker,
or a terminating character. Brackets are not counted, so closing lines rely on indentation alone. A
*line* locator recognises the whole construct.

## Contents
- `Closing`, `Locator`, with `ofHeader`, `closedBy`, `indentedBy`: how constructs are found.
- `closingLine`, `terminated`, `ending`: the end and the interior of a block.
- `locateWithin`, `locate`: the construct at one position.
- `locateAll`: all constructs of a range, from left to right.
-/

namespace Graft

/-- What ends the body of a construct. -/
inductive Closing
  /-- A line that holds the indentation of the header and this marker, and nothing else. -/
  | line (marker : Text)
  /-- The first such character after the header; no blank line may stand before it. -/
  | terminator (c : Char)
deriving DecidableEq, Repr

/-- A way of finding constructs. With an indentation, only those whose header stands on a line with
    exactly that indentation are found. -/
inductive Locator
  /-- A header and a body. -/
  | block (header : Recognizer) (closing : Closing) (indentation : Option Text)
  /-- A construct that one recogniser matches in full. -/
  | line (construct : Recognizer) (indentation : Option Text)

namespace Locator

/-- A block locator for a header. Unless told otherwise it takes a line with a closing brace as the
    end, and any indentation. -/
def ofHeader (header : Recognizer) : Locator :=
  block header (.line ['\x7d']) none

/-- The locator with another way of closing, if it finds blocks. -/
def closedBy (l : Locator) (closing : Closing) : Locator :=
  match l with
  | block header _ wanted => block header closing wanted
  | line construct wanted => line construct wanted

/-- The locator for constructs with exactly this indentation. -/
def indentedBy (l : Locator) (indentation : Text) : Locator :=
  match l with
  | block header closing _ => block header closing (some indentation)
  | line construct _ => line construct (some indentation)

/-- The spaces and tabs at the start of the line that a position lies on. -/
def lineIndentation (t : Text) (pos : Nat) : Text :=
  t.indentationAt (t.startOfLine pos)

/-- Whether an indentation is as asked for. -/
def admits (wanted : Option Text) (indentation : Text) : Bool :=
  wanted.all (· = indentation)

/-! ## The end of a block -/

/-- A line without the newline that ends it. -/
def withoutNewline (t : Text) : Text :=
  if t.getLast? = some '\n' then t.dropLast else t

/-- Where the closing line starts and where it ends, among the given lines of which the first starts at
    position `start`. The search gives up at a line that ends after `limit`, and at one that is neither
    blank nor indented like the header. -/
def closingLine (indentation marker : Text) (limit start : Nat) :
    List Text → Traced (Option (Nat × Nat))
  | [] => return none
  | candidate :: rest => do
      let next := start + candidate.size
      let content := withoutNewline candidate
      if limit < next then return none
      else if content = indentation ++ marker then return some (start, next)
      else if !content.isBlank && !indentation.isPrefixOf content then do
        Traced.note (.outdentedLine start indentation)
        return none
      else closingLine indentation marker limit next rest

/-- The end and the interior of a block that a line closes. The interior starts at the newline of the
    line on which the header ends or, if the header ends where a line starts, right there; it ends where
    the closing line starts. -/
def closedByLine (t : Text) (marker indentation : Text) (headerEnd limit : Nat) :
    Traced (Option (Nat × Span)) := do
  let first := t.nextLineStartOrHere headerEnd
  let inside := if first = headerEnd then headerEnd else t.lineEnd headerEnd
  let lines := ((t.from? first).getD []).lines
  match ← closingLine indentation marker limit first lines with
  | none => return none
  | some (found, stop) => return some (stop, ⟨inside, found⟩)

/-- The end and the interior of a block that a character closes. -/
def terminated (t : Text) (c : Char) (pos headerEnd limit : Nat) :
    Traced (Option (Nat × Span)) :=
  match (t.slice? headerEnd limit).bind (Text.find? c) with
  | none => return none
  | some offset => do
      let found := headerEnd + offset
      if t.containsBlankLine headerEnd found then
        Traced.note (.blankBeforeTerminator pos found)
        return none
      else return some (found + c.utf8Size, ⟨headerEnd, found⟩)

/-- The end and the interior of a block whose header was found at a position. -/
def ending (closing : Closing) (t indentation : Text) (pos headerEnd limit : Nat) :
    Traced (Option (Nat × Span)) :=
  match closing with
  | .terminator c => terminated t c pos headerEnd limit
  | .line marker => closedByLine t marker indentation headerEnd limit

/-! ## Constructs at a position -/

/-- The block whose header matches at a position and which ends no later than `limit`. -/
def blockWithin (header : Recognizer) (closing : Closing) (wanted : Option Text) (t : Text)
    (pos limit : Nat) : Traced (Option Block) := do
  match ← header t pos with
  | none => return none
  | some e =>
      let indentation := lineIndentation t e.start
      if limit < e.span.stop then return none
      else if !admits wanted indentation then
        Traced.note (.otherIndentation e.start indentation)
        return none
      else
        match ← ending closing t indentation pos e.span.stop limit with
        | none => return none
        | some (stop, interior) =>
            return some ⟨e.start, stop, ⟨pos, stop⟩, indentation, e, some interior⟩

/-- The construct that a recogniser matches at a position and which ends no later than `limit`. It must
    have a place in the text and span no blank line. -/
def lineWithin (construct : Recognizer) (wanted : Option Text) (t : Text) (pos limit : Nat) :
    Traced (Option Block) := do
  match ← construct t pos with
  | none => return none
  | some e =>
      let indentation := lineIndentation t e.start
      if limit < e.span.stop || !e.isValid || !admits wanted indentation then return none
      else if t.containsBlankLine e.start e.stop then
        Traced.note (.blankInside e.start)
        return none
      else return some ⟨e.start, e.stop, e.span, indentation, e, none⟩

/-- The construct that begins at a position and ends no later than `limit`. -/
def locateWithin (l : Locator) (t : Text) (pos limit : Nat) : Traced (Option Block) :=
  let limit := min limit t.size
  if pos < limit then
    match l with
    | block header closing wanted => blockWithin header closing wanted t pos limit
    | line construct wanted => lineWithin construct wanted t pos limit
  else return none

/-- The construct that begins at a position. -/
def locate (l : Locator) (t : Text) (pos : Nat) : Traced (Option Block) :=
  l.locateWithin t pos t.size

/-! ## All constructs of a range -/

/-- Where a scan goes on after the construct found at `pos`: at the first line start at or after the
    end of the construct, and in any case after `pos`. -/
def resume (t : Text) (pos : Nat) (b : Block) : Nat :=
  let next := t.nextLineStartOrHere b.stop
  if pos < next then next else t.nextLineStart pos

/-- The constructs from `pos` on that end no later than `stop`. Without one at `pos` the scan goes on
    with the next line. The bound is the distance to `stop`. -/
def scan (l : Locator) (t : Text) (stop : Nat) : Nat → Nat → Traced (List Block)
  | 0, _ => return []
  | bound + 1, pos =>
      if pos < stop then do
        match ← l.locateWithin t pos stop with
        | none => scan l t stop bound (t.nextLineStart pos)
        | some b => do
            Traced.note (.located b.start b.stop)
            let rest ← scan l t stop bound (resume t pos b)
            return b :: rest
      else return []

/-- The constructs between two positions, from left to right. Those that lie inside one that was found
    are passed over. -/
def locateAll (l : Locator) (t : Text) (start stop : Nat) : Traced (List Block) :=
  let stop := min stop t.size
  l.scan t stop (stop - start) start

end Locator

end Graft
