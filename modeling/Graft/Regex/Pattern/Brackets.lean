import Graft.Regex.Pattern.Escape

/-!
# `Graft.Regex.Pattern.Brackets` — sets written in brackets

Brackets hold characters, ranges, escapes, names between colons and further brackets. Two ampersands,
hyphens or tildes between them stand for the intersection, the difference and the symmetric
difference, all of one precedence. Sets ignore case before they are complemented, and without the Unicode
flag they hold characters of ASCII alone.

The reader keeps a stack of the brackets that are open and of the operators that wait for their right
side; it takes up at least one character in each step.
-/

namespace Graft.Regex.Pattern

/-- A set together with the number of levels that it nests. -/
structure Nested where
  set : CharSet
  depth : Nat

/-- The operators between the sets in brackets. -/
inductive SetOp
  | inter
  | diff
  | symmDiff
deriving DecidableEq, Repr

/-- The set that an operator makes of two. -/
def SetOp.apply : SetOp → CharSet → CharSet → CharSet
  | inter => .inter
  | diff => .diff
  | symmDiff => .symmDiff

/-- What waits on the stack of the reader. -/
inductive Open
  /-- An open bracket, the members before it, and whether it is complemented. -/
  | bracket (outer : List Nested) (negated : Bool)
  /-- An operator with its left side. -/
  | operator (op : SetOp) (left : Nested)

/-- What the members of a bracket, the last one first, amount to. -/
def gather : List Nested → Nested
  | [] => ⟨.empty, 0⟩
  | [m] => m
  | ms => ⟨.unions (ms.reverse.map Nested.set), 1 + (ms.map Nested.depth).foldl max 0⟩

/-- The right side of an operator put together with the left side, if one waits. -/
def reduceOperator (f : Flags) (right : Nested) : List Open → Nested × List Open
  | .operator op left :: stack =>
      (⟨op.apply (f.fold left.set) (f.fold right.set), 1 + max left.depth right.depth⟩, stack)
  | stack => (right, stack)

/-- The character after white space and at most one comment sign. -/
def peekPastBlanks (f : Flags) (t : Text) : Option Char :=
  if f.extended then
    match t.dropWhile Unicode.isWhiteSpace with
    | '#' :: rest => (rest.dropWhile Unicode.isWhiteSpace).head?
    | rest => rest.head?
  else t.head?

/-- A name between colons, after the bracket that opens it, and whether it stands for a complement.
    Anything else is no name. -/
def readName? (t : Text) : Option ((Bool × CharSet) × Text) :=
  match t with
  | ':' :: inner =>
      let (negated, inner) := match inner with
        | '^' :: rest => (true, rest)
        | _ => (false, inner)
      let name := inner.takeWhile (· ≠ ':')
      match inner.dropWhile (· ≠ ':') with
      | ':' :: ']' :: rest => (CharSet.named? name).map fun s => ((negated, s), rest)
      | _ => none
  | _ => none

/-- One end of a range, or a member on its own. -/
def readAtom? [Engine] (f : Flags) : Text → Option (Atom × Text)
  | [] => none
  | '\\' :: rest => readEscape? f rest
  | c :: rest => some (.char c, rest)

/-- The member that an atom alone is. -/
def Atom.member? (f : Flags) : Atom → Option CharSet
  | .char c => if f.admits c then some (.char c) else none
  | .set s => some s
  | .look _ => none

/-- The range between two atoms. -/
def Atom.to? (f : Flags) (first last : Atom) : Option CharSet :=
  match first, last with
  | .char lo, .char hi => if lo ≤ hi ∧ f.admits hi then some (.range lo hi) else none
  | _, _ => none

/-- A member: a range of characters, a single one, or a set. -/
def readMember? [Engine] (f : Flags) (t : Text) : Option (CharSet × Text) := do
  let (first, rest) ← readAtom? f t
  let rest := f.skip rest
  match rest with
  | [] => none
  | c :: after =>
      let next := peekPastBlanks f after
      if c ≠ '-' ∨ next = some ']' ∨ next = some '-' then
        return (← first.member? f, rest)
      else
        let (last, rest) ← readAtom? f (f.skip after)
        return (← first.to? f last, rest)

/-- The hyphens at the start of a bracket stand for themselves. The bound is the length of the
    text. -/
def readHyphens (f : Flags) : Nat → Text → List Nested × Text
  | 0, t => ([], t)
  | bound + 1, t =>
      match t with
      | '-' :: rest =>
          let (ms, after) := readHyphens f bound (f.skip rest)
          (⟨.char '-', 0⟩ :: ms, after)
      | _ => ([], t)

/-- The start of a bracket, after the bracket itself: whether it is complemented, and the members
    that stand for themselves only there. -/
def readOpening? (f : Flags) (t : Text) : Option (Bool × List Nested × Text) :=
  let t := f.skip t
  let (negated, t) := match t with
    | '^' :: rest => (true, f.skip rest)
    | _ => (false, t)
  let (hyphens, t) := readHyphens f t.length t
  match hyphens, t with
  | _, [] => none
  | [], ']' :: rest =>
      let rest := f.skip rest
      if rest.isEmpty then none else some (negated, [⟨.char ']', 0⟩], rest)
  | _, _ => some (negated, hyphens, t)

/-- The bracket that a closing bracket completes. -/
def closeBracket? (f : Flags) (negated : Bool) (whole : Nested) : Option Nested :=
  (f.complete? negated whole.set).map fun s => ⟨s, 1 + whole.depth⟩

/-- Reads on within brackets; `members` are those of the innermost one, the last first. The bound is
    the length of the text. -/
def readMembers? [Engine] (f : Flags) :
    Nat → List Open → List Nested → Text → Option (Nested × Text)
  | 0, _, _, _ => none
  | bound + 1, stack, members, t =>
      let operator (op : SetOp) (rest : Text) : Option (Nested × Text) :=
        let (left, stack) := reduceOperator f (gather members) stack
        readMembers? f bound (.operator op left :: stack) [] rest
      match f.skip t with
      | [] => none
      | '[' :: rest =>
          match readName? rest with
          | some ((negated, s), rest) => do
              let s ← f.complete? negated s
              readMembers? f bound stack (⟨s, 0⟩ :: members) rest
          | none => do
              let (negated, inner, rest) ← readOpening? f rest
              readMembers? f bound (.bracket members negated :: stack) inner rest
      | ']' :: rest =>
          let (whole, stack) := reduceOperator f (gather members) stack
          match stack with
          | [.bracket _ negated] => (closeBracket? f negated whole).map (·, rest)
          | .bracket outer negated :: stack => do
              let closed ← closeBracket? f negated whole
              readMembers? f bound stack (closed :: outer) rest
          | _ => none
      | '&' :: '&' :: rest => operator .inter rest
      | '-' :: '-' :: rest => operator .diff rest
      | '~' :: '~' :: rest => operator .symmDiff rest
      | t => do
          let (s, rest) ← readMember? f t
          readMembers? f bound stack (⟨s, 0⟩ :: members) rest

/-- A set in brackets, after the opening one. -/
def readBrackets? [Engine] (f : Flags) (t : Text) : Option (Nested × Text) := do
  let (negated, members, rest) ← readOpening? f t
  readMembers? f (rest.length + 1) [.bracket [] negated] members rest

end Graft.Regex.Pattern
