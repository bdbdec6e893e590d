import Graft.Text.Quoted

/-!
# `Graft.Json` — documents in JSON

Just enough of the format to write a report: texts, numbers, arrays and objects, printed over several
lines with two spaces for each level.
-/

namespace Graft

/-- A JSON document. Objects keep the order of their fields. -/
inductive Json
  | text (value : Text)
  | number (value : Nat)
  | array (items : List Json)
  | object (fields : List (String × Json))

namespace Json

/-- One character inside a JSON string. -/
def escapeChar (c : Char) : Text :=
  if c = '"' then ['\\', '"']
  else if c = '\\' then ['\\', '\\']
  else if c = '\x08' then ['\\', 'b']
  else if c = '\x0c' then ['\\', 'f']
  else if c = '\n' then ['\\', 'n']
  else if c = '\r' then ['\\', 'r']
  else if c = '\t' then ['\\', 't']
  else if c.toNat < 0x10 then ['\\', 'u', '0', '0', '0'] ++ Text.hexDigits c.toNat
  else if c.toNat < 0x20 then ['\\', 'u', '0', '0'] ++ Text.hexDigits c.toNat
  else [c]

/-- A JSON string. -/
def string (s : Text) : Text :=
  '"' :: s.flatMap escapeChar ++ ['"']

/-- A new line at the given level. -/
def newline (level : Nat) : Text :=
  '\n' :: List.replicate (2 * level) ' '

mutual

/-- A document, its closing bracket at the given level. -/
def pretty (level : Nat) : Json → Text
  | text value => string value
  | number value => Text.ofNat value
  | array [] => ['[', ']']
  | array (item :: items) =>
      ['['] ++ newline (level + 1) ++ pretty (level + 1) item ++ prettyItems (level + 1) items
        ++ newline level ++ [']']
  | object [] => ['\x7b', '\x7d']
  | object (field :: fields) =>
      ['\x7b'] ++ newline (level + 1) ++ prettyField (level + 1) field
        ++ prettyFields (level + 1) fields ++ newline level ++ ['\x7d']

/-- The items of an array after its first. -/
def prettyItems (level : Nat) : List Json → Text
  | [] => []
  | item :: items => [','] ++ newline level ++ pretty level item ++ prettyItems level items

/-- One field of an object. -/
def prettyField (level : Nat) : String × Json → Text
  | (name, value) => string name.toList ++ [':', ' '] ++ pretty level value

/-- The fields of an object after its first. -/
def prettyFields (level : Nat) : List (String × Json) → Text
  | [] => []
  | field :: fields =>
      [','] ++ newline level ++ prettyField level field ++ prettyFields level fields

end

end Json

end Graft
