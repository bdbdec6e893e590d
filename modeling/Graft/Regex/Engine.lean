import Graft.Regex.Basic
import Graft.Text.Basic

/-!
# `Graft.Regex.Engine` — what is not said by the syntax of expressions

Two things about a pattern are not told by how patterns are written: which characters have a property
that it names, and whether the program for it is small enough. An engine decides both by data of its
own. The reader of patterns and all that is said of it hold for any `Engine`.

The instance at the end is the one that programs are run with. It knows the properties that this library
has tables of.
-/

namespace Graft.Regex

/-- What an engine brings along. Readers and their lemmas carry it as an instance, so that it is never
    named where nothing depends on it. -/
class Engine where
  /-- The characters with a property of a name, if there is one. The name is what stands in the braces,
      operators included. -/
  property? : Text → Option CharSet
  /-- Whether the program for an expression stays within the limit for its size. -/
  fits : Regex → Bool

/-- The property of a name, which is told by its letters and digits alone, without regard to case. -/
def Property.named? (name : Text) : Option Property :=
  match String.ofList ((name.filter fun c => !(c = ' ' || c = '_' || c = '-')).map Char.toLower) with
  | "whitespace" | "wspace" | "space" => some whiteSpace
  | "decimalnumber" | "digit" | "nd" => some decimalDigit
  | "othernumber" | "no" => some otherNumber
  | "alphabetic" | "alpha" => some alphabetic
  | "mark" | "combiningmark" | "m" => some mark
  | "connectorpunctuation" | "pc" => some connector
  | "joincontrol" | "joinc" => some joinControl
  | _ => none

/-- The most characters that rounds written out may match, of alternatives the longest counted. -/
def positions : Regex → Nat
  | empty | look _ => 0
  | set _ => 1
  | capture _ r => r.positions
  | seq a b => a.positions + b.positions
  | alt a b => max a.positions b.positions
  | rep _ least none r => max least 1 * r.positions
  | rep _ _ (some most) r => most * r.positions

/-- Programs may take up ten megabytes. A program has a state of 24 bytes or more for each of its
    `positions`, so those that are refused are too large in any case. -/
instance Engine.standard : Engine where
  property? name := (Property.named? name).map .property
  fits r := 24 * r.positions ≤ 10 * Nat.pow 2 20

end Graft.Regex
