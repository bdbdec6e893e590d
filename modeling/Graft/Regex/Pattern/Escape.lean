import Graft.Regex.Engine

/-!
# `Graft.Regex.Pattern.Escape` — flags and the smallest parts of a pattern

A pattern is read from left to right under flags that parts of it may change. In the extended style
white space and comments between the parts are passed over. This module reads what can stand both
inside and outside brackets: single characters and escapes.

## Contents
- `Flags` and `Flags.skip`.
- `Atom`: a character, a set or a test.
- `readEscape?`: what follows a backslash.
-/

namespace Graft.Regex.Pattern

/-- The settings that a part of a pattern is read under. -/
structure Flags where
  ignoreCase : Bool
  multiLine : Bool
  dotAll : Bool
  swapGreed : Bool
  returns : Bool
  extended : Bool
  unicode : Bool
deriving DecidableEq, Repr

/-- The settings at the start of a pattern. -/
def Flags.standard : Flags :=
  ⟨false, false, false, false, false, false, true⟩

/-- The settings after one is switched on or off by its letter. Unknown letters have no setting. -/
def Flags.set? (f : Flags) (letter : Char) (on : Bool) : Option Flags :=
  match letter with
  | 'i' => some { f with ignoreCase := on }
  | 'm' => some { f with multiLine := on }
  | 's' => some { f with dotAll := on }
  | 'U' => some { f with swapGreed := on }
  | 'R' => some { f with returns := on }
  | 'x' => some { f with extended := on }
  | 'u' => some { f with unicode := on }
  | _ => none

/-- The text without the white space and the comments in front. A comment runs to the end of its
    line. -/
def skipBlanks (inComment : Bool) : Text → Text
  | [] => []
  | c :: rest =>
      if inComment then skipBlanks (c ≠ '\n') rest
      else if Unicode.isWhiteSpace c then skipBlanks false rest
      else if c = '#' then skipBlanks true rest
      else c :: rest

/-- What the reader sees next: in the extended style it passes over blanks. -/
def Flags.skip (f : Flags) (t : Text) : Text :=
  if f.extended then skipBlanks false t else t

/-! ## Atoms -/

/-- The smallest parts of a pattern. -/
inductive Atom
  /-- A character that stands for itself. -/
  | char (c : Char)
  /-- A set with a name of its own. -/
  | set (s : CharSet)
  /-- A test. -/
  | look (l : Look)
deriving DecidableEq, Repr

/-- The characters that have a meaning somewhere in a pattern. -/
def isMeta (c : Char) : Bool :=
  "\\.+*?()|[]\x7b\x7d^$#&-~".toList.contains c

/-- The characters that may stand after a backslash to stand for themselves: those of ASCII that are
    neither letters nor digits, the angle brackets excepted. -/
def isEscapable (c : Char) : Bool :=
  isMeta c || (c.toNat < 0x80 && !c.isAlphanum && c ≠ '<' && c ≠ '>')

/-- The set of decimal digits. -/
def Flags.digits (f : Flags) : CharSet :=
  if f.unicode then .property .decimalDigit else .range '0' '9'

/-- The set of white space. -/
def Flags.spaces (f : Flags) : CharSet :=
  if f.unicode then .property .whiteSpace else .asciiSpace

/-- The set of word characters. -/
def Flags.words (f : Flags) : CharSet :=
  if f.unicode then .property .wordChar else .asciiWord

/-- Whether a set may hold a character: without the Unicode flag, sets stay within ASCII. -/
def Flags.admits (f : Flags) (c : Char) : Bool :=
  f.unicode || c.toNat < 0x80

/-- A set without regard to case, where the flags ask for it. Without the Unicode flag only the letters
    of ASCII have cases. -/
def Flags.fold (f : Flags) (s : CharSet) : CharSet :=
  if f.ignoreCase then .folded (!f.unicode) s else s

/-- A set as it is written, or its complement. Case is passed over first. Without the Unicode flag there
    is no complement, since it would hold parts of characters. -/
def Flags.complete? (f : Flags) (negated : Bool) (s : CharSet) : Option CharSet :=
  if !negated then some (f.fold s) else if f.unicode then some (.compl (f.fold s)) else none

/-- The value of a hexadecimal digit. -/
def hexValue? (c : Char) : Option Nat :=
  let n := c.toNat
  if '0' ≤ c ∧ c ≤ '9' then some (n - '0'.toNat)
  else if 'a' ≤ c ∧ c ≤ 'f' then some (n - 'a'.toNat + 10)
  else if 'A' ≤ c ∧ c ≤ 'F' then some (n - 'A'.toNat + 10)
  else none

/-- The character with a code point, if there is one. -/
def charAt? (n : Nat) : Option Char :=
  if n.isValidChar then some (Char.ofNat n) else none

/-- A code point of exactly `count` further hexadecimal digits, after `value`. -/
def readHexDigits? (f : Flags) (value : Nat) : Nat → Text → Option (Nat × Text)
  | 0, t => some (value, t)
  | count + 1, t =>
      match f.skip t with
      | [] => none
      | c :: rest => do
          let digit ← hexValue? c
          readHexDigits? f (16 * value + digit) count rest

/-- A code point of hexadecimal digits up to a closing brace. `none` for a value means that no digit
    has been read. The bound is the length of the text. -/
def readHexBraced? (f : Flags) (value : Option Nat) : Nat → Text → Option (Nat × Text)
  | 0, _ => none
  | bound + 1, t =>
      match f.skip t with
      | [] => none
      | '\x7d' :: rest => value.map (·, rest)
      | c :: rest => do
          let digit ← hexValue? c
          readHexBraced? f (some (16 * value.getD 0 + digit)) bound rest

/-- The code point after the letter that announces one. Without the Unicode flag two bare digits are
    a byte, which must be a character by itself. -/
def readHex? (f : Flags) (digits : Nat) (t : Text) : Option (Atom × Text) := do
  let t := f.skip t
  let (n, rest) ← match t with
    | '\x7b' :: inner => readHexBraced? f none (inner.length + 1) inner
    | _ => do
        let (n, rest) ← readHexDigits? f 0 digits t
        if f.unicode ∨ digits ≠ 2 ∨ n < 0x80 then some (n, rest) else none
  return (.char (← charAt? n), f.skip rest)

/-- The letters and hyphens in front of a text, blanks passed over. The bound is its length. -/
def readLetters (f : Flags) : Nat → Text → Text × Text
  | 0, t => ([], t)
  | bound + 1, t =>
      match t with
      | [] => ([], [])
      | c :: rest =>
          if c.isAlpha || c = '-' then
            let (letters, after) := readLetters f bound (f.skip rest)
            (c :: letters, after)
          else ([], t)

/-- The test of a word edge: after the letter `b` a name in braces may follow. Braces with anything
    else in them belong to a repetition, which is left to be read. -/
def readWordEdge? (f : Flags) (t : Text) : Option (Atom × Text) :=
  let edge (e : WordEdge) : Atom := .look (.word e (!f.unicode))
  match t with
  | '\x7b' :: inner =>
      match f.skip inner with
      | [] => none
      | c :: rest =>
          if !(c.isAlpha || c = '-') then some (edge .boundary, t)
          else
            let (name, after) := readLetters f (rest.length + 1) (c :: rest)
            match after with
            | '\x7d' :: after =>
                match String.ofList name with
                | "start" => some (edge .start, after)
                | "end" => some (edge .stop, after)
                | "start-half" => some (edge .startHalf, after)
                | "end-half" => some (edge .stopHalf, after)
                | _ => none
            | _ => none
  | _ => some (edge .boundary, t)

/-- The characters up to a closing brace, blanks passed over. The bound is the length of the text. -/
def readBraced? (f : Flags) : Nat → Text → Option (Text × Text)
  | 0, _ => none
  | bound + 1, t =>
      match f.skip t with
      | [] => none
      | '\x7d' :: rest => some ([], rest)
      | c :: rest => (readBraced? f bound rest).map (Prod.map (c :: ·) id)

/-- The name of a property: one character, or what stands in braces. -/
def readPropertyName? (f : Flags) (t : Text) : Option (Text × Text) :=
  match f.skip t with
  | [] | '\\' :: _ => none
  | '\x7b' :: inner => readBraced? f (inner.length + 1) inner
  | c :: rest => some ([c], rest)

/-- The set of a Unicode property, after the letter that announces one. -/
def readProperty? [Engine] (f : Flags) (negated : Bool) (t : Text) : Option (Atom × Text) := do
  let (name, rest) ← readPropertyName? f t
  let s ← if f.unicode then Engine.property? name else none
  return (.set (← f.complete? negated s), rest)

/-- What a backslash introduces, and the text after it. References to groups and unknown letters are
    refused. -/
def readEscape? [Engine] (f : Flags) : Text → Option (Atom × Text)
  | [] => none
  | c :: rest =>
      let edge (e : WordEdge) : Option (Atom × Text) := some (.look (.word e (!f.unicode)), rest)
      let negated (s : CharSet) : Option (Atom × Text) :=
        if f.unicode then some (.set (.compl s), rest) else none
      if isEscapable c then some (.char c, rest)
      else match c with
        | 'x' => readHex? f 2 rest
        | 'u' => readHex? f 4 rest
        | 'U' => readHex? f 8 rest
        | 'p' => readProperty? f false rest
        | 'P' => readProperty? f true rest
        | 'd' => some (.set f.digits, rest)
        | 's' => some (.set f.spaces, rest)
        | 'w' => some (.set f.words, rest)
        | 'D' => negated f.digits
        | 'S' => negated f.spaces
        | 'W' => negated f.words
        | 'a' => some (.char '\x07', rest)
        | 'f' => some (.char '\x0c', rest)
        | 't' => some (.char '\t', rest)
        | 'n' => some (.char '\n', rest)
        | 'r' => some (.char '\r', rest)
        | 'v' => some (.char '\x0b', rest)
        | 'A' => some (.look .textStart, rest)
        | 'z' => some (.look .textStop, rest)
        | 'b' => readWordEdge? f rest
        | 'B' => edge .inside
        | '<' => edge .start
        | '>' => edge .stop
        | _ => none

end Graft.Regex.Pattern
