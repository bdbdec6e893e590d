import Graft.Element
import Graft.Regex.Search

/-!
# `Graft.Recognizer` — recognising at a position

A recogniser answers whether a text matches at exactly one position, and with which element. No match
is an ordinary answer. A position past the end matches nothing; neither does one inside a character,
save that the recognisers which consume nothing answer an invalid element there.

## Contents
- `Recognizer` and `Regex.Program.scan?`: matching a regular expression on the rest of a text.
- `pattern`, `space`, `word`, `dottedWord`, `number`, `bool`: recognisers given by expressions.
- `empty`, `plain`, `symbol`, `string`: recognisers that read characters themselves.
-/

namespace Graft

/-- Tells whether a text matches at a position, and with which element. -/
abbrev Recognizer := Text → Nat → Traced (Option Element)

/-- Matches an expression on the text from a position on, which is all that it sees. The content is
    what the first group matched or, if that took no part, the whole match. -/
def Regex.Program.scan? (p : Regex.Program) (t : Text) (pos : Nat) : Option Bounds :=
  if pos < t.size then
    (t.from? pos).bind fun rest => (p.find? rest).map fun found =>
      let content := (found.group? 1).getD found.span
      ⟨pos + content.start, pos + content.stop, ⟨pos + found.span.start, pos + found.span.stop⟩⟩
  else none

/-! ## The expressions of the built-in recognisers -/

namespace Token

open Regex

/-- White space, as much as there is. -/
def blanks : Regex :=
  star (.set (.property .whiteSpace))

/-- A letter of ASCII or an underscore. -/
def wordStart : CharSet :=
  .ranges [('_', '_'), ('A', 'Z'), ('a', 'z')]

/-- An identifier: a letter of ASCII or an underscore, then word characters of any script. -/
def identifier : Regex :=
  .seq (.set wordStart) (star (.set (.property .wordChar)))

/-- The edge of a word. -/
def edge : Regex :=
  .look (.word .boundary false)

/-- At the start of the text, blanks and then a group. -/
def afterBlanks (body : Regex) : Regex :=
  seqs [.look .textStart, blanks, body]

/-- An identifier between edges of words. -/
def word : Regex :=
  afterBlanks (seqs [edge, .capture 1 identifier, edge])

/-- Identifiers joined by dots, between edges of words. -/
def dottedWord : Regex :=
  afterBlanks (seqs
    [edge, .capture 1 (.seq identifier (star (.seq (.set (.char '.')) identifier))), edge])

/-- One decimal digit or more. -/
def digits : Regex :=
  .plus (.set (.property .decimalDigit))

/-- An integer with an optional minus, and perhaps a point and a fraction. -/
def number : Regex :=
  afterBlanks (seqs
    [.capture 1 (.seq (opt (.set (.char '-'))) digits),
     opt (.seq (.set (.char '.')) (.capture 2 digits))])

/-- The characters of a text, one after the other. -/
def literal (s : Text) : Regex :=
  seqs (s.map fun c => .set (.char c))

/-- One of the two truth values. -/
def bool : Regex :=
  afterBlanks (.capture 1 (.alt (literal "true".toList) (literal "false".toList)))

/-- White space, at least one character. -/
def space : Regex :=
  .seq (.look .textStart) (.plus (.set (.property .whiteSpace)))

/-- The program of `word`. -/
def wordProgram : Program := .ofRegex word

/-- The program of `dottedWord`. -/
def dottedWordProgram : Program := .ofRegex dottedWord

/-- The program of `number`. -/
def numberProgram : Program := .ofRegex number

/-- The program of `bool`. -/
def boolProgram : Program := .ofRegex bool

/-- The program of `space`. -/
def spaceProgram : Program := .ofRegex space

end Token

namespace Recognizer

/-! ## Recognisers given by expressions -/

/-- What a match of an expression amounts to, as an element of some kind. -/
def ofProgram (p : Regex.Program) (kind : Extent → Element) : Recognizer := fun t pos =>
  match p.scan? t pos with
  | none => pure none
  | some b => return some (kind (← Extent.ofRange t b.start b.stop b.span))

/-- A regular expression. -/
def pattern (p : Regex.Program) : Recognizer :=
  ofProgram p .basic

/-- White space, at least one character. -/
def space : Recognizer :=
  ofProgram Token.spaceProgram .basic

/-- An identifier after white space. -/
def word : Recognizer :=
  ofProgram Token.wordProgram .word

/-- Identifiers joined by dots, after white space. A dot at the end is left out. -/
def dottedWord : Recognizer :=
  ofProgram Token.dottedWordProgram .dottedWord

/-- `true` or `false` after white space. -/
def bool : Recognizer := fun t pos =>
  match Token.boolProgram.scan? t pos with
  | none => pure none
  | some b => do
      let extent ← Extent.ofRange t b.start b.stop b.span
      return some (.bool extent (extent.content? t = some "true".toList))

/-- An integer after white space, perhaps with a fraction. The content ends with the fraction or, if
    there is none, with the integer. -/
def number : Recognizer := fun t pos =>
  if pos < t.size then
    match t.from? pos with
    | none => pure none
    | some rest =>
        match Token.numberProgram.find? rest with
        | none => pure none
        | some found =>
            match found.group? 1 with
            | none => pure none
            | some integer => do
                let fraction := found.group? 2
                let stop := (fraction.map Span.stop).getD integer.stop
                let text (s : Span) : Text := (rest.slice? s.start s.stop).getD []
                let extent ← Extent.ofRange t (pos + integer.start) (pos + stop)
                  ⟨pos + found.span.start, pos + found.span.stop⟩
                return some (.number extent (text integer) (fraction.map text))
  else pure none

/-! ## Recognisers that read characters -/

/-- Nothing, anywhere in the text. -/
def empty : Recognizer := fun t pos =>
  if t.size < pos then pure none
  else return some (.basic (← Extent.ofRange t pos pos ⟨pos, pos⟩))

/-- A literal. At the end of the text not even an empty one matches. -/
def plain (literal : Text) : Recognizer := fun t pos =>
  if pos < t.size then
    match t.from? pos with
    | none => pure none
    | some rest =>
        if literal.isPrefixOf rest then do
          let stop := pos + literal.size
          return some (.basic (← Extent.ofRange t pos stop ⟨pos, stop⟩))
        else pure none
  else pure none

/-- Whether a character may stand before a symbol or a quoted literal. -/
def isSkipped (c : Char) : Bool :=
  c = ' ' || c = '\t' || c = '\n' || c = '\r'

/-- A literal after spaces, tabs and line ends. -/
def symbol (literal : Text) : Recognizer := fun t pos =>
  if pos < t.size then
    match t.from? pos with
    | none => pure none
    | some rest =>
        if literal.isPrefixOf (rest.dropWhile isSkipped) then do
          let start := pos + Text.size (rest.takeWhile isSkipped)
          let stop := start + literal.size
          return some (.symbol (← Extent.ofRange t start stop ⟨pos, stop⟩))
        else pure none
  else pure none

/-- How many bytes stand before the quote mark that closes a literal. A backslash takes away the
    meaning of the character after it; `escaped` says that one has just been read. -/
def closingQuote? (mark : Char) (escaped : Bool) : Text → Option Nat
  | [] => none
  | c :: rest =>
      let further (escaped : Bool) := (closingQuote? mark escaped rest).map (c.utf8Size + ·)
      if escaped then further false
      else if c = '\\' then further true
      else if c = mark then some 0
      else further false

/-- Whether a quoted literal is set off as raw by an `r` before its first mark, and what stands after
    that. -/
def rawMarker : Text → Bool × Text
  | 'r' :: more => (true, more)
  | more => (false, more)

/-- A literal between quote marks, after spaces, tabs and line ends. An `r` before the first mark
    sets it off as raw; backslashes escape all the same. -/
def string : Recognizer := fun t pos =>
  match t.from? pos with
  | none => pure none
  | some rest =>
      let start := pos + Text.size (rest.takeWhile isSkipped)
      let (raw, quoted) := rawMarker (rest.dropWhile isSkipped)
      match quoted with
      | [] => pure none
      | mark :: body =>
          if mark = '"' ∨ mark = '\'' then
            match closingQuote? mark false body with
            | none => pure none
            | some length => do
                let inner := start + (if raw then 2 else 1)
                let stop := inner + length + 1
                let extent ← Extent.ofRange t start stop ⟨pos, stop⟩
                return some (.string extent ⟨inner, inner + length⟩ raw)
          else pure none

end Recognizer

end Graft
