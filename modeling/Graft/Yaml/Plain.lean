import Graft.Text.Basic

/-!
# `Graft.Yaml.Plain` — strings that need quotes

A string may stand plain in YAML if nothing in it looks like the syntax of the format (`allowsPlain`),
and if it would not be read back as something else: as null, a truth value, an integer or a float
(`readsAsOther`).
-/

namespace Graft.Yaml

/-! ## Numbers -/

/-- The value of a digit below the base. -/
def digitValue? (base : Nat) (c : Char) : Option Nat :=
  let n := c.toNat
  let value :=
    if '0' ≤ c ∧ c ≤ '9' then n - '0'.toNat
    else if 'a' ≤ c ∧ c ≤ 'z' then n - 'a'.toNat + 10
    else if 'A' ≤ c ∧ c ≤ 'Z' then n - 'A'.toNat + 10
    else base
  if value < base then some value else none

/-- The value of a string of digits; an empty one has none. -/
def digitsValue? (base : Nat) : Text → Option Nat
  | [] => none
  | cs => cs.foldlM (fun acc c => (digitValue? base c).map (acc * base + ·)) 0

/-- A string without the sign in front of it, and whether the sign is a minus. -/
def splitSign : Text → Bool × Text
  | '-' :: rest => (true, rest)
  | '+' :: rest => (false, rest)
  | s => (false, s)

/-- A magnitude that fits into 128 bits: signed ones lose a bit. -/
def fits (negative : Bool) (n : Nat) : Bool :=
  if negative then n ≤ Nat.pow 2 127 else n < Nat.pow 2 128

/-- The magnitude of an integer without sign, in the base that its first two characters name. -/
def magnitude? : Text → Option Nat
  | '0' :: 'x' :: rest => digitsValue? 16 rest
  | '0' :: 'o' :: rest => digitsValue? 8 rest
  | '0' :: 'b' :: rest => digitsValue? 2 rest
  | s => digitsValue? 10 s

/-- Whether a string is an integer of at most 128 bits. -/
def isInteger (s : Text) : Bool :=
  let (negative, body) := splitSign s
  (magnitude? body).any (fits negative)

/-- Whether a string is a sign and digits of which the first, but not the only one, is a zero. -/
def hasLeadingZero (s : Text) : Bool :=
  match (splitSign s).2 with
  | '0' :: c :: rest => (c :: rest).all Char.isDigit
  | _ => false

/-- A decimal number: `digits · 10 ^ (scale - shift)`. -/
structure Decimal where
  digits : Nat
  shift : Nat
  scale : Int

/-- An exponent: a sign and at least one digit. -/
def exponent? (s : Text) : Option Int :=
  let (negative, body) := splitSign s
  (digitsValue? 10 body).map fun n => if negative then -(n : Int) else n

/-- The decimal number that a string without sign spells out: digits with a point among, before or
    after them, and perhaps an exponent. -/
def decimal? (s : Text) : Option Decimal := do
  let mantissa := s.takeWhile fun c => c ≠ 'e' ∧ c ≠ 'E'
  let scale ← match s.dropWhile fun c => c ≠ 'e' ∧ c ≠ 'E' with
    | [] => some 0
    | _ :: rest => exponent? rest
  let whole := mantissa.takeWhile (· ≠ '.')
  let fraction := (mantissa.dropWhile (· ≠ '.')).drop 1
  let digits ← digitsValue? 10 (whole ++ fraction)
  return ⟨digits, fraction.length, scale⟩

/-- Whether a decimal number rounds to a finite double: it lies below the midpoint between the
    greatest double and the next power of two. -/
def Decimal.isFinite (d : Decimal) : Bool :=
  let bound := Nat.pow 2 1024 - Nat.pow 2 970
  let power := d.scale - d.shift
  if d.digits = 0 then true
  else if power < 0 then
    let drop := power.natAbs
    if drop > (Text.ofNat d.digits).length then true else d.digits < bound * Nat.pow 10 drop
  else if power > 400 then false
  else d.digits * Nat.pow 10 power.toNat < bound

/-- Whether a string is a float with a finite value, or one of the words for infinity and for the
    absence of a value. -/
def isFloat (s : Text) : Bool :=
  let body := (splitSign s).2
  body ∈ [".inf", ".Inf", ".INF"].map String.toList
    || s ∈ [".nan", ".NaN", ".NAN"].map String.toList
    || (decimal? body).any Decimal.isFinite

/-! ## Other readings -/

/-- Whether a string is a word for null or for a truth value. -/
def isReserved (s : Text) : Bool :=
  s ∈ ["null", "Null", "NULL", "~", "true", "True", "TRUE", "false", "False", "FALSE"].map
    String.toList

/-- Whether a plain string would not be read back as a string. -/
def readsAsOther (s : Text) : Bool :=
  s.isEmpty || isReserved s || hasLeadingZero s || isInteger s || isFloat s

/-! ## Syntax -/

/-- Whether a character separates tokens. -/
def isBlankChar (c : Char) : Bool :=
  c = ' ' || c = '\t'

/-- Whether a string starts with a blank, or is empty. -/
def startsBlank : Text → Bool
  | [] => true
  | c :: _ => isBlankChar c

/-- Whether a string holds a colon before a blank or the end, or a hash after a blank. -/
def hasIndicator : Text → Bool
  | [] => false
  | c :: rest =>
      (c = ':' && startsBlank rest) || (isBlankChar c && rest.head? = some '#')
        || hasIndicator rest

/-- Whether nothing in a string looks like the syntax of the format. -/
def allowsPlain (s : Text) : Bool :=
  match s with
  | [] => false
  | c :: rest =>
      !(['-', '-', '-'].isPrefixOf s || ['.', '.', '.'].isPrefixOf s
        || "#,[]\x7b\x7d&*!|>'\"%@".toList.contains c || c.toNat = 0x60
        || ("?:-".toList.contains c && startsBlank rest)
        || hasIndicator s
        || c = ' ' || s.getLast? = some ' ')

end Graft.Yaml
