import Graft.Grammar.Blueprint

/-!
# `Graft.Grammar.Session` — steps in the life of a grammar

A session makes, copies and sets forwards, builds, replaces and drops rules, and reads texts through
both, one step after the other. A step that fails is answered with its failure and leaves the grammar
as it was.

## Contents
- `Grammar.Step`, `Grammar.Answer`: what can be asked, and what is answered.
- `Grammar.step`: the grammar after a step, and the answer.
- `Grammar.afterAll`: the grammar after some steps.
-/

namespace Graft.Grammar

/-- One step of a session. -/
inductive Step
  /-- Stores a new forward under a name. -/
  | newForward (name : Text)
  /-- Stores a forward under a second name. -/
  | cloneForward (name copy : Text)
  /-- Builds a rule and stores it under a name, in the place of the rule of that name. -/
  | storeRule (name : Text) (blueprint : Blueprint)
  /-- Drops the rule of a name. -/
  | dropRule (name : Text)
  /-- Points a forward to a rule. -/
  | define (forward rule : Text)
  /-- Asks whether a forward was set. -/
  | isDefined (forward : Text)
  /-- Asks for the written form of a forward. -/
  | inspect (forward : Text)
  /-- Reads a text at a position, with the rule of a name or else with the forward of that name. -/
  | read (name : Text) (t : Text) (pos : Nat)
deriving Repr

/-- The answer to a step. -/
inductive Answer
  /-- The step was carried out. -/
  | done
  | flag (b : Bool)
  | written (s : String)
  /-- What was recognised. -/
  | found (e : Option Element)
  /-- The rule could not be built. -/
  | unbuilt (e : BuildError)
  /-- Nothing is stored under the name. -/
  | unknown (name : Text)
deriving Repr

/-- Goes on with the slot of a forward, if there is one of that name. -/
def withForward (g : Grammar) (name : Text) (k : Slot → Traced (Grammar × Answer)) :
    Traced (Grammar × Answer) :=
  match g.forward? name with
  | none => return (g, .unknown name)
  | some slot => k slot

/-- The grammar after a step, with the answer. -/
def step [Regex.Engine] (g : Grammar) : Step → Traced (Grammar × Answer)
  | .newForward name => return (g.newForward name, .done)
  | .cloneForward name copy =>
      match g.cloneForward? name copy with
      | none => return (g, .unknown name)
      | some g => return (g, .done)
  | .storeRule name b =>
      match g.storeRule name b with
      | .error e => return (g, .unbuilt e)
      | .ok g => return (g, .done)
  | .dropRule name => return (g.drop name, .flag (g.stored? name).isSome)
  | .define forward rule =>
      match g.stored? rule with
      | none => return (g, .unknown rule)
      | some id => g.withForward forward fun slot => do
          let g ← g.define slot id
          return (g, .done)
  | .isDefined forward => g.withForward forward fun slot => return (g, .flag (g.isDefined slot))
  | .inspect forward => g.withForward forward fun slot =>
      return (g, .written (g.inspectForward slot))
  | .read name t pos =>
      match g.named? name with
      | none => return (g, .unknown name)
      | some r => do
          let e ← g.recognizer r t pos
          return (g, .found e)

/-- The grammar after a step. A step that is cut short changes nothing. -/
def after [Regex.Engine] (g : Grammar) (s : Step) : Grammar :=
  match (g.step s).result with
  | .ok (g, _) => g
  | .error _ => g

/-- The grammar after some steps. -/
def afterAll [Regex.Engine] (g : Grammar) (steps : List Step) : Grammar :=
  steps.foldl after g

end Graft.Grammar
