import Graft.Yaml.Plain
import Graft.Text.Quoted

/-!
# `Graft.Yaml.Scalar` — choosing the style of a YAML string

A string with a newline becomes a literal block where that keeps it intact, any other string is
written plain or in single quotes, and a string that neither form keeps intact goes between double
quotes with escapes. Where a form runs over several lines, each of them is indented by two spaces.
-/

namespace Graft.Yaml

/-- Whether YAML has no way to show a character outside double quotes. -/
def isUnprintable (c : Char) : Bool :=
  let n := c.toNat
  (n < 0x20 && c ≠ '\n') || (0x7F ≤ n && n ≤ 0x9F) || n = 0xFEFF || n = 0xFFFE || n = 0xFFFF

/-- A number in upper-case hexadecimal with at least the given number of digits. -/
def hexUpper (width n : Nat) : Text :=
  let digits := (Text.hexDigits n).map Char.toUpper
  List.replicate (width - digits.length) '0' ++ digits

/-- One character between double quotes. -/
def escapeChar (c : Char) : Text :=
  match c with
  | '\x00' => ['\\', '0']
  | '\x07' => ['\\', 'a']
  | '\x08' => ['\\', 'b']
  | '\t' => ['\\', 't']
  | '\n' => ['\\', 'n']
  | '\x0b' => ['\\', 'v']
  | '\x0c' => ['\\', 'f']
  | '\r' => ['\\', 'r']
  | '\x1b' => ['\\', 'e']
  | '"' => ['\\', '"']
  | '\\' => ['\\', '\\']
  | '\u0085' => ['\\', 'N']
  | '\u2028' => ['\\', 'L']
  | '\u2029' => ['\\', 'P']
  | _ =>
      let n := c.toNat
      if !isUnprintable c then [c]
      else if n ≤ 0xFF then ['\\', 'x'] ++ hexUpper 2 n
      else if n ≤ 0xFFFF then ['\\', 'u'] ++ hexUpper 4 n
      else ['\\', 'U'] ++ hexUpper 8 n

/-- A string between double quotes. -/
def doubleQuoted (s : Text) : Text :=
  '"' :: s.flatMap escapeChar ++ ['"']

/-! ## Lines -/

/-- Whether a character ends a line: the newline, and the line and paragraph separators. (The other
    two characters that YAML counts here cannot be shown outside double quotes.) -/
def isBreak (c : Char) : Bool :=
  c = '\n' || c = '\u2028' || c = '\u2029'

/-- Whether the last character of a string ends a line. -/
def endsInBreak (s : Text) : Bool :=
  s.getLast?.any isBreak

/-- A string with two spaces in front of each line that is not empty; `fresh` says whether the string
    starts a line itself. -/
def indented (fresh : Bool) : Text → Text
  | [] => []
  | c :: rest =>
      if isBreak c then c :: indented true rest
      else (if fresh then [' ', ' ', c] else [c]) ++ indented false rest

/-- Whether a space stands directly before the end of a line. -/
def hasSpaceBeforeBreak : Text → Bool
  | c :: d :: rest => (c = ' ' && isBreak d) || hasSpaceBeforeBreak (d :: rest)
  | _ => false

/-- Whether a space stands directly after the end of a line. -/
def hasSpaceAfterBreak : Text → Bool
  | c :: d :: rest => (isBreak c && d = ' ') || hasSpaceAfterBreak (d :: rest)
  | _ => false

/-! ## Single quotes -/

/-- Whether a string would not survive between single quotes. -/
def singleQuotesBlocked (s : Text) : Bool :=
  s.any isUnprintable || hasSpaceBeforeBreak s || hasSpaceAfterBreak s

/-- A string between single quotes. -/
def singleQuoted (s : Text) : Text :=
  '\'' :: indented false (s.flatMap fun c => if c = '\'' then ['\'', '\''] else [c])
    ++ (if endsInBreak s then [' ', ' '] else []) ++ ['\'']

/-! ## Literal blocks -/

/-- Whether a string would not survive in a literal block. -/
def literalBlocked (s : Text) : Bool :=
  s.any isUnprintable || hasSpaceBeforeBreak s || s.getLast? = some ' '

/-- Whether a string ends with an empty line. -/
def endsInEmptyLine (s : Text) : Bool :=
  match s.reverse with
  | [c] => isBreak c
  | c :: d :: _ => isBreak c && isBreak d
  | [] => false

/-- What says how the end of a literal block is read: stripped, kept, or one newline. -/
def chomping (s : Text) : Text :=
  if !endsInBreak s then ['-']
  else if endsInEmptyLine s then ['+']
  else []

/-- Whether the indentation of a literal block has to be written: it cannot be seen where the string
    starts with a space or an empty line. -/
def needsIndentation (s : Text) : Bool :=
  s.head?.any fun c => c = ' ' || isBreak c

/-- A string as a literal block, with the end of its last line. -/
def literalBlock (s : Text) : Text :=
  ['|'] ++ (if needsIndentation s then ['2'] else []) ++ chomping s ++ ['\n']
    ++ indented true s ++ (if endsInBreak s then [] else ['\n'])

/-! ## The choice -/

/-- A string as the rest of a line of the document, with the end of that line. -/
def scalarLine (s : Text) : Text :=
  if s.contains '\n' then
    if literalBlocked s then doubleQuoted s ++ ['\n'] else literalBlock s
  else if singleQuotesBlocked s then doubleQuoted s ++ ['\n']
  else if readsAsOther s || !allowsPlain s || s.any isBreak then singleQuoted s ++ ['\n']
  else s ++ ['\n']

end Graft.Yaml
