import Graft.Grammar
import Graft.Regex.Pattern

/-!
# `Graft.Grammar.Blueprint` — rules as they are written down

A blueprint names the parts of a rule; building it adds the rule to a grammar. Parts are built before
what contains them and in the order in which they are written, so the first pattern that is not valid
decides how a build fails. A failed build leaves the grammar as it was.

## Contents
- `Blueprint`, and `Blueprint.build`: adding a rule to a grammar.
- `Grammar.ofDefinitions`: a grammar of named rules that may refer to each other.
-/

namespace Graft

/-- A rule as it is written down. -/
inductive Blueprint
  | empty
  | space
  | word
  | dottedWord
  | string
  | number
  | bool
  | plain (literal : Text)
  | symbol (literal : Text)
  | pattern (source : Text)
  | join (parts : List Blueprint)
  | choice (alternatives : List Blueprint)
  | group (parts : List Blueprint)
  | optional (part : Blueprint)
  | list (item separator : Blueprint) (opening closing : Option Blueprint)
      (allowTrailing allowEmpty : Bool)
  /-- A rule that the grammar shares. -/
  | shared (name : Shared)
  /-- A type name around the rule of its name. -/
  | typeName (name : Blueprint)
  /-- The forward of a name, or one that is never defined where there is none. -/
  | ref (name : Text)
  /-- The very rule stored under a name. -/
  | use (name : Text)
deriving Repr

/-- Why a rule cannot be built. -/
inductive BuildError
  /-- The pattern is no regular expression. -/
  | invalidPattern (source : Text)
  /-- No rule is stored under the name. -/
  | unknownRule (name : Text)
deriving DecidableEq, Repr

namespace BuildError

/-- The error in words. -/
def message : BuildError → String
  | invalidPattern source => "invalid pattern \x60" ++ String.ofList source ++ "\x60"
  | unknownRule name => "unknown rule " ++ String.ofList name

/-- The stable name of the kind of error. -/
def code : BuildError → String
  | invalidPattern _ => "grammar::invalid_pattern"
  | unknownRule _ => "grammar::unknown_rule"

/-- What can be done about the error. -/
def help : BuildError → String
  | invalidPattern _ =>
      "The pattern must be a valid regular expression for the \x60regex\x60 crate."
  | unknownRule _ => "Store a rule under this name before it is used."

end BuildError

/-- The program of a pattern that is tied to the start of the text: the pattern is put, as it is
    written, into a group after the test for the start. -/
def anchoredProgram? [Regex.Engine] (source : Text) : Option Regex.Program :=
  (Regex.ofPattern? ("^(?:".toList ++ source ++ [')'])).map Regex.Program.ofRegex

namespace Blueprint

/-- A build changes a grammar and may fail. -/
abbrev Build := StateT Grammar (Except BuildError)

/-- Adds a node for a rule with its parts. -/
def node (rule : Rule) (parts : List NodeId) : Build (NodeId × Rule) := do
  let id ← modifyGet (·.add rule parts)
  return (id, rule)

mutual

/-- Adds the rule of a blueprint to the grammar: its node, and the rule itself. -/
def build [Regex.Engine] : Blueprint → Build (NodeId × Rule)
  | empty => node .empty []
  | space => node .space []
  | word => node .word []
  | dottedWord => node .dottedWord []
  | string => node .string []
  | number => node .number []
  | bool => node .bool []
  | plain literal => node (.plain literal) []
  | symbol literal => node (.symbol literal) []
  | pattern source =>
      match anchoredProgram? source with
      | none => throw (.invalidPattern source)
      | some p => node (.pattern p) []
  | join parts => do
      let built ← buildAll parts
      node (.join (built.map (·.2))) (built.map (·.1))
  | choice alternatives => do
      let built ← buildAll alternatives
      node (.choice (built.map (·.2))) (built.map (·.1))
  | group parts => do
      let built ← buildAll parts
      node (.group (built.map (·.2))) (built.map (·.1))
  | optional part => do
      let (id, rule) ← build part
      node (.optional rule) [id]
  | list item separator opening closing allowTrailing allowEmpty => do
      let item ← build item
      let separator ← build separator
      let opening ← build? opening
      let closing ← build? closing
      let rule := Rule.list item.2 separator.2 (opening.map (·.2)) (closing.map (·.2))
        allowTrailing allowEmpty
      node rule ([item.1, separator.1] ++ (opening.map (·.1)).toList
        ++ (closing.map (·.1)).toList)
  | shared name => do
      let id ← modifyGet (·.sharedRule name)
      return (id, ((← get).rule? id).getD .empty)
  | typeName name => do
      let (id, rule) ← build name
      let own ← modifyGet (·.addTypeName id rule)
      return (own, ((← get).rule? own).getD .empty)
  | ref name => do
      match (← get).forward? name with
      | some slot => node (.forward slot) []
      | none =>
          let slot ← modifyGet Grammar.addSlot
          node (.forward slot) []
  | use name => do
      let g ← get
      match g.stored? name with
      | some id => return (id, (g.rule? id).getD .empty)
      | none => throw (.unknownRule name)

/-- Adds the rules of some blueprints, in order. -/
def buildAll [Regex.Engine] : List Blueprint → Build (List (NodeId × Rule))
  | [] => return []
  | b :: rest => do
      let built ← build b
      let others ← buildAll rest
      return built :: others

/-- Adds the rule of a blueprint, if there is one. -/
def build? [Regex.Engine] : Option Blueprint → Build (Option (NodeId × Rule))
  | none => return none
  | some b => do
      let built ← build b
      return some built

end

end Blueprint

namespace Grammar

/-- Builds a rule and stores it under a name. -/
def storeRule [Regex.Engine] (g : Grammar) (name : Text) (b : Blueprint) : Except BuildError Grammar := do
  let ((id, _), g) ← b.build.run g
  return g.store name id

/-- Adds named rules, each of them the target of the forward of its name. A build that fails ends the
    run with its error; a name that comes twice is a defect. -/
def addDefinitions [Regex.Engine] (g : Grammar) :
    List (Text × Blueprint) → Traced (Except BuildError Grammar)
  | [] => return .ok g
  | (name, b) :: rest =>
      match b.build.run g with
      | .error e => return .error e
      | .ok ((id, _), g) =>
          match g.forward? name with
          | none => g.addDefinitions rest
          | some slot => do
              let g ← g.define slot id
              (g.store name id).addDefinitions rest

/-- A grammar of named rules that may refer to each other, and to themselves, through forwards. -/
def ofDefinitions [Regex.Engine] (definitions : List (Text × Blueprint)) :
    Traced (Except BuildError Grammar) :=
  (definitions.foldl (fun g d => g.newForward d.1) empty).addDefinitions definitions

end Grammar

end Graft
