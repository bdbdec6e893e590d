import Graft.Regex.Pattern.Brackets

/-!
# `Graft.Regex.Pattern` — the written form of regular expressions

A pattern is read in one pass with a stack of the groups that are open. It is valid if all brackets
and groups close, every repetition has something to repeat and bounds in order, every escape and flag
is known, no two groups share a name, groups nest at most 250 levels deep, and the `Engine` admits the
size of its program.

## Contents
- `Reader`, `Frame`, `Item`: what has been read so far.
- `step?`: one step of the reader, which takes up at least one character.
- `Regex.ofPattern?`: the expression that a pattern stands for, if it is valid.
-/

namespace Graft.Regex.Pattern

/-- An expression together with the number of levels that it nests. -/
structure Term where
  regex : Regex
  depth : Nat

/-- What stands in a sequence: an expression, or a change of flags, which nothing can repeat. -/
inductive Item
  | term (t : Term)
  | flags

/-- What waits while a group is read. -/
structure Frame where
  /-- The flags outside the group. -/
  flags : Flags
  /-- The number of the group, if it captures. -/
  capture : Option Nat
  /-- The alternatives before the group, the last first. -/
  branches : List Term
  /-- The sequence before the group, its last item first. -/
  items : List Item

/-- What has been read so far. -/
structure Reader where
  flags : Flags
  frames : List Frame
  branches : List Term
  items : List Item
  /-- How many groups capture so far. -/
  groups : Nat
  /-- The names of groups so far. -/
  names : List Text

/-- Before anything has been read. -/
def Reader.start : Reader :=
  ⟨.standard, [], [], [], 0, []⟩

/-- The greatest number of levels that expressions may nest. -/
def maxDepth : Nat := 250

/-! ## Putting parts together -/

/-- The depth of some parts put side by side: one level more if there are several. -/
def depthOf (count : Nat) (depths : List Nat) : Nat :=
  (if count > 1 then 1 else 0) + depths.foldl max 0

/-- The expressions of a sequence. -/
def Item.term? : Item → Option Term
  | term t => some t
  | flags => none

/-- A sequence, given with its last item first. -/
def sequence (items : List Item) : Term :=
  let terms := items.reverse.filterMap Item.term?
  ⟨.seqs (terms.map Term.regex), depthOf items.length (terms.map Term.depth)⟩

/-- Alternatives, given with the last one first. -/
def alternatives (branches : List Term) : Term :=
  ⟨.alts (branches.reverse.map Term.regex), depthOf branches.length (branches.map Term.depth)⟩

/-- Everything read since the innermost open group began. -/
def Reader.whole (r : Reader) : Term :=
  alternatives (sequence r.items :: r.branches)

/-- The reader with one more expression in its sequence. -/
def Reader.push (r : Reader) (regex : Regex) (depth : Nat) : Reader :=
  { r with items := .term ⟨regex, depth⟩ :: r.items }

/-- The expression of a character. -/
def Flags.literal (f : Flags) (c : Char) : Regex :=
  .set (f.fold (.char c))

/-- The expression of a dot. Without the Unicode flag it would match half a character. -/
def Flags.dot? (f : Flags) : Option Regex :=
  if !f.unicode then none
  else if f.dotAll then some (.set (.compl .empty))
  else if f.returns then some (.set (.compl (.union (.char '\n') (.char '\r'))))
  else some (.set .notNewline)

/-- The test of a circumflex. -/
def Flags.caret (f : Flags) : Look :=
  if !f.multiLine then .textStart else if f.returns then .returnLineStart else .lineStart

/-- The test of a dollar sign. -/
def Flags.dollar (f : Flags) : Look :=
  if !f.multiLine then .textStop else if f.returns then .returnLineStop else .lineStop

/-- The expression of an atom. -/
def Flags.atom (f : Flags) : Atom → Regex
  | .char c => f.literal c
  | .set s => .set s
  | .look l => .look l

/-! ## Groups -/

/-- The flags between the question mark and the end of their list, with their new values. A minus
    may stand once and must be followed by a flag; no flag may stand twice. -/
def readFlags? (negated pending : Bool) (given : List (Char × Bool)) :
    Text → Option (List (Char × Bool) × Char × Text)
  | [] => none
  | c :: rest =>
      if c = ':' ∨ c = ')' then if pending then none else some (given.reverse, c, rest)
      else if c = '-' then if negated then none else readFlags? true true given rest
      else if given.any (·.1 = c) then none
      else readFlags? negated false ((c, !negated) :: given) rest

/-- The flags after some changes. -/
def Flags.change? (f : Flags) (changes : List (Char × Bool)) : Option Flags :=
  changes.foldlM (fun f c => f.set? c.1 c.2) f

/-- Whether a text may name a group. -/
def isGroupName : Text → Bool
  | [] => false
  | c :: rest =>
      (c = '_' || Unicode.isAlphabetic c)
        && rest.all fun d =>
          d = '_' || d = '.' || d = '[' || d = ']' || Unicode.isAlphanumeric d

/-- The reader inside a new group. -/
def Reader.enter (r : Reader) (flags : Flags) (capture : Option Nat) : Reader :=
  { r with
    flags := flags
    frames := ⟨r.flags, capture, r.branches, r.items⟩ :: r.frames
    branches := []
    items := [] }

/-- The reader inside a new group that captures. -/
def Reader.enterCapture (r : Reader) : Reader :=
  { r.enter r.flags (some (r.groups + 1)) with groups := r.groups + 1 }

/-- The reader inside a new group with a name, which no group before may have. -/
def enterNamed? (r : Reader) (t : Text) : Option (Reader × Text) :=
  let name := t.takeWhile (· ≠ '>')
  match t.dropWhile (· ≠ '>') with
  | [] => none
  | _ :: rest =>
      if isGroupName name && !r.names.contains name then
        some ({ r.enterCapture with names := name :: r.names }, rest)
      else none

/-- What an opening parenthesis introduces: a group, or a change of flags for the rest of the group
    that it stands in. Tests of what comes before or after are refused. -/
def openGroup? (r : Reader) (t : Text) : Option (Reader × Text) :=
  match r.flags.skip t with
  | '?' :: '=' :: _ | '?' :: '!' :: _ | '?' :: '<' :: '=' :: _ | '?' :: '<' :: '!' :: _ => none
  | '?' :: 'P' :: '<' :: rest | '?' :: '<' :: rest => enterNamed? r rest
  | '?' :: rest => do
      let (changes, terminator, rest) ← readFlags? false false [] rest
      let flags ← r.flags.change? changes
      if terminator = ':' then some (r.enter flags none, rest)
      else if changes.isEmpty then none
      else some ({ r with flags := flags, items := .flags :: r.items }, rest)
  | t => some (r.enterCapture, t)

/-- The reader after the innermost group has closed. -/
def Reader.leave? (r : Reader) : Option Reader :=
  match r.frames with
  | [] => none
  | frame :: frames =>
      let body := r.whole
      let regex := match frame.capture with
        | none => body.regex
        | some index => .capture index body.regex
      some { r with
        flags := frame.flags
        frames := frames
        branches := frame.branches
        items := .term ⟨regex, 1 + body.depth⟩ :: frame.items }

/-! ## Repetitions -/

/-- The reader after the last expression of its sequence is repeated. -/
def Reader.repeat? (r : Reader) (greedy : Bool) (least : Nat) (most : Option Nat) :
    Option Reader :=
  match r.items with
  | .term t :: items =>
      let greedy := greedy != r.flags.swapGreed
      some { r with items := .term ⟨.repeated greedy least most t.regex, 1 + t.depth⟩ :: items }
  | _ => none

/-- Whether a question mark makes a repetition reluctant, and the text after it. -/
def readGreed : Text → Bool × Text
  | '?' :: rest => (false, rest)
  | t => (true, t)

/-- The decimal digits in front of a text, blanks after each passed over. The bound is its
    length. -/
def readDigits (f : Flags) : Nat → Text → Text × Text
  | 0, t => ([], t)
  | bound + 1, t =>
      match t with
      | [] => ([], [])
      | c :: rest =>
          if c.isDigit then
            let (digits, after) := readDigits f bound (f.skip rest)
            (c :: digits, after)
          else ([], t)

/-- The text without the white space in front, in the extended style without comments as well. The
    bound is its length. -/
def skipSpaces (f : Flags) : Nat → Text → Text
  | 0, t => t
  | bound + 1, t =>
      match t with
      | [] => []
      | c :: rest => if Unicode.isWhiteSpace c then skipSpaces f bound (f.skip rest) else t

/-- A bound of a repetition, or nothing where no digit stands. Bounds have at most 32 bits. -/
def readBound? (f : Flags) (t : Text) : Option (Option Nat × Text) :=
  let t := t.dropWhile Unicode.isWhiteSpace
  let (digits, rest) := readDigits f t.length t
  let rest := skipSpaces f rest.length rest
  match digits with
  | [] => some (none, rest)
  | _ =>
      let n := Nat.ofDigitChars 10 digits 0
      if n < Nat.pow 2 32 then some (some n, rest) else none

/-- The bounds of a repetition, after the opening brace. -/
def readBounds? (f : Flags) (t : Text) : Option (Nat × Option Nat × Text) := do
  let (least, rest) ← readBound? f (f.skip t)
  let least ← least
  match rest with
  | '\x7d' :: rest => some (least, some least, rest)
  | ',' :: rest =>
      match f.skip rest with
      | '\x7d' :: rest => some (least, none, rest)
      | rest => do
          let (most, rest) ← readBound? f rest
          let most ← most
          match rest with
          | '\x7d' :: rest => if least ≤ most then some (least, some most, rest) else none
          | _ => none
  | _ => none

/-! ## The whole pattern -/

/-- One step of the reader. -/
def step? [Engine] (r : Reader) : Text → Option (Reader × Text)
  | [] => none
  | c :: rest =>
      let repeated (least : Nat) (most : Option Nat) : Option (Reader × Text) := do
        let (greedy, rest) := readGreed rest
        return (← r.repeat? greedy least most, rest)
      match c with
      | '(' => openGroup? r rest
      | ')' => r.leave?.map (·, rest)
      | '|' => some ({ r with branches := sequence r.items :: r.branches, items := [] }, rest)
      | '[' => do
          let (s, rest) ← readBrackets? r.flags rest
          return (r.push (.set s.set) s.depth, rest)
      | '?' => repeated 0 (some 1)
      | '*' => repeated 0 none
      | '+' => repeated 1 none
      | '\x7b' => do
          let (least, most, rest) ← readBounds? r.flags rest
          let (greedy, rest) := readGreed (r.flags.skip rest)
          return (← r.repeat? greedy least most, rest)
      | '.' => do return (r.push (← r.flags.dot?) 0, rest)
      | '^' => some (r.push (.look r.flags.caret) 0, rest)
      | '$' => some (r.push (.look r.flags.dollar) 0, rest)
      | '\\' => do
          let (atom, rest) ← readEscape? r.flags rest
          return (r.push (r.flags.atom atom) 0, rest)
      | c => some (r.push (r.flags.literal c) 0, rest)

/-- Reads to the end of a pattern. The bound is its length. -/
def read? [Engine] : Nat → Reader → Text → Option Term
  | 0, _, _ => none
  | bound + 1, r, t =>
      match r.flags.skip t with
      | [] => if r.frames.isEmpty then some r.whole else none
      | t => do
          let (r, rest) ← step? r t
          read? bound r rest

end Pattern

/-- The expression that a pattern stands for, if the pattern is valid. -/
def ofPattern? [Engine] (pattern : Text) : Option Regex := do
  let term ← Pattern.read? (pattern.length + 1) .start pattern
  if term.depth ≤ Pattern.maxDepth ∧ Engine.fits term.regex then some term.regex else none

end Graft.Regex
