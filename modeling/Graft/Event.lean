import Graft.Extent
import Graft.Refusal

/-!
# `Graft.Event` — what is worth noting while texts are read and revised

Recognisers, locators and drafts report what they did as events, each with a level and a message. A *defect* is a
mistake in the wiring of a grammar: it ends the run that meets it, and is reported as well.
-/

namespace Graft

/-- A grammar that was wired incorrectly. -/
inductive Defect
  /-- A forward was read through before it had a target. -/
  | undefinedForward
  /-- The target of a forward is no longer kept by anyone. -/
  | droppedForward
  /-- A forward was given a second target. -/
  | redefinedForward
  /-- A rule got an element of a shape that it cannot use. -/
  | unexpectedShape (rule expected found : String)
deriving DecidableEq, Repr

/-- The defect in words. -/
def Defect.message : Defect → String
  | undefinedForward => "forward rule used before it was defined"
  | droppedForward => "forward rule outlived the rule it points to"
  | redefinedForward => "forward rule defined twice"
  | unexpectedShape rule expected found =>
      s!"{rule} expected {expected}, but its inner rule produced a {found} element"

/-- How much attention an event deserves. -/
inductive Level
  | trace
  | debug
  | warn
  | error
deriving DecidableEq, Repr

/-- The name of a level. -/
def Level.name : Level → String
  | trace => "TRACE"
  | debug => "DEBUG"
  | warn => "WARN"
  | error => "ERROR"

/-- One thing that happened during a run. -/
inductive Event
  /-- Positions that make no extent became an invalid element. -/
  | invalidElement (reason : RangeError)
  /-- A scan found a construct. -/
  | located (start stop : Nat)
  /-- A line before any closing line is indented less than the header. -/
  | outdentedLine (line : Nat) (indentation : Text)
  /-- A header is not indented as asked. -/
  | otherIndentation (header : Nat) (indentation : Text)
  /-- A blank line stands between a header and its terminator. -/
  | blankBeforeTerminator (header terminator : Nat)
  /-- A construct that must not do so spans a blank line. -/
  | blankInside (start : Nat)
  /-- An edit was accepted; the replacement has that many bytes. -/
  | accepted (start stop bytes : Nat)
  /-- An edit was refused. -/
  | refused (refusal : Refusal)
  /-- The run ended in a defect of its grammar. -/
  | defect (defect : Defect)
deriving DecidableEq, Repr

namespace Event

/-- The level of an event. -/
def level : Event → Level
  | invalidElement _ | accepted .. => .debug
  | refused _ => .warn
  | defect _ => .error
  | located .. | outdentedLine .. | otherIndentation .. | blankBeforeTerminator ..
  | blankInside _ => .trace

/-- The event in words. -/
def message : Event → String
  | invalidElement reason => "invalid element: " ++ reason.message
  | located start stop => s!"located construct at {start}..{stop}"
  | outdentedLine line indentation =>
      s!"line at {line} leaves indentation " ++ String.ofList indentation.quoted ++ ", giving up"
  | otherIndentation header indentation =>
      s!"header at {header} has indentation " ++ String.ofList indentation.quoted
  | blankBeforeTerminator header terminator =>
      s!"blank line between header at {header} and terminator at {terminator}"
  | blankInside start => s!"construct at {start} spans a blank line"
  | accepted start stop bytes => s!"accepted edit {start}..{stop} ({bytes} bytes)"
  | refused refusal => refusal.message
  | defect d => "grammar defect: " ++ d.message

end Event

end Graft
