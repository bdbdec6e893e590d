import Graft.Rule

/-!
# `Graft.Grammar` — rules, who keeps them, and the forwards between them

A grammar holds rules as nodes. A node keeps the nodes that it is made of; from outside, nodes are kept
by the names they are stored under and by the grammar itself. A node that nobody keeps any more is
released, and with it what only it kept. Forwards do not keep their targets: a slot remembers its node,
whether that is still there or not.

Parts are built before what contains them, so a node keeps older nodes only. Nodes are listed from the
newest to the oldest, and one pass along the list releases everything that is to be released.

## Contents
- `Node`, `Grammar`: the state, with look-ups.
- `add`, `addSlot`, `keep`: growing.
- `store`, `drop`: names, and the release of what is no longer kept.
- `define`, `isDefined`: forwards, which are set once.
- `target`, `recognizer`: what slots and nodes recognise now.
-/

namespace Graft

/-- The number of a node, counted from the oldest. -/
abbrev NodeId := Nat

/-- A rule together with its place in the ownership of rules. -/
structure Node where
  rule : Rule
  /-- The nodes that this one keeps. -/
  parts : List NodeId
  /-- How many times the node is kept. -/
  owners : Nat
  /-- Whether the node is still there. -/
  alive : Bool
deriving Repr

/-- The rules that a grammar shares among all their uses. -/
inductive Shared
  | word
  | dottedWord
  | string
  | number
  | bool
  | typeName
deriving DecidableEq, Repr

/-- Rules and forwards. -/
structure Grammar where
  /-- All nodes ever made, the newest first. -/
  nodes : List Node
  /-- What the slots were set to, the oldest first. -/
  slots : List (Option NodeId)
  /-- The rules stored under names. -/
  rules : List (Text × NodeId)
  /-- The forwards stored under names. -/
  forwards : List (Text × Slot)
  /-- The shared rules made so far. -/
  shared : List (Shared × NodeId)
deriving Repr

namespace Grammar

/-- A grammar without rules. -/
def empty : Grammar :=
  ⟨[], [], [], [], []⟩

/-! ## Look-ups -/

/-- The node of a number in a list that starts with the newest. -/
def nodeIn? : List Node → NodeId → Option Node
  | [], _ => none
  | n :: older, id => if id = older.length then some n else nodeIn? older id

/-- The node of a number. -/
def node? (g : Grammar) (id : NodeId) : Option Node :=
  nodeIn? g.nodes id

/-- Whether a node is still there. -/
def isAlive (g : Grammar) (id : NodeId) : Bool :=
  (g.node? id).any Node.alive

/-- The rule of a node that is still there. -/
def rule? (g : Grammar) (id : NodeId) : Option Rule :=
  ((g.node? id).filter Node.alive).map Node.rule

/-- The node stored under a name. -/
def stored? (g : Grammar) (name : Text) : Option NodeId :=
  g.rules.lookup name

/-- The slot of the forward stored under a name. -/
def forward? (g : Grammar) (name : Text) : Option Slot :=
  g.forwards.lookup name

/-- The node that a slot was set to. -/
def slotTarget? (g : Grammar) (slot : Slot) : Option NodeId :=
  (g.slots[slot]?).join

/-! ## Growing -/

/-- Adds to the owners of nodes, once for each time a node is listed. -/
def acquire (ids : List NodeId) : List Node → List Node
  | [] => []
  | n :: older =>
      { n with owners := n.owners + ids.count older.length } :: acquire ids older

/-- A new node that keeps the given parts and is itself not yet kept. -/
def add (g : Grammar) (rule : Rule) (parts : List NodeId) : NodeId × Grammar :=
  (g.nodes.length, { g with nodes := ⟨rule, parts, 0, true⟩ :: acquire parts g.nodes })

/-- A new slot that is not set. -/
def addSlot (g : Grammar) : Slot × Grammar :=
  (g.slots.length, { g with slots := g.slots ++ [none] })

/-- Sets a slot. -/
def setSlot (g : Grammar) (slot : Slot) (id : NodeId) : Grammar :=
  { g with slots := g.slots.set slot (some id) }

/-- A type name around a name that is already there. The slot for its arguments points to it. -/
def addTypeName (g : Grammar) (id : NodeId) (name : Rule) : NodeId × Grammar :=
  let (slot, g) := g.addSlot
  let (own, g) := g.add (.typeName slot name) [id]
  (own, g.setSlot slot own)

/-- Keeps a shared rule for as long as the grammar lives. -/
def keepShared (g : Grammar) (name : Shared) (id : NodeId) : Grammar :=
  { g with nodes := acquire [id] g.nodes, shared := (name, id) :: g.shared }

/-- The shared rule of a kind other than type names, made at its first use. -/
def simpleShared (g : Grammar) (name : Shared) (rule : Rule) : NodeId × Grammar :=
  match g.shared.lookup name with
  | some id => (id, g)
  | none =>
      let (id, g) := g.add rule []
      (id, g.keepShared name id)

/-- The shared rule of a kind. That of type names reads dotted names, and shares their rule. -/
def sharedRule (g : Grammar) : Shared → NodeId × Grammar
  | .word => g.simpleShared .word .word
  | .dottedWord => g.simpleShared .dottedWord .dottedWord
  | .string => g.simpleShared .string .string
  | .number => g.simpleShared .number .number
  | .bool => g.simpleShared .bool .bool
  | .typeName =>
      match g.shared.lookup .typeName with
      | some id => (id, g)
      | none =>
          let (name, g) := g.simpleShared .dottedWord .dottedWord
          let (id, g) := g.addTypeName name .dottedWord
          (id, g.keepShared .typeName id)

/-! ## Names -/

/-- Takes the lost owners away from nodes. A node that has none left is gone, and those that it kept
    lose an owner in turn; they are older and come later in the list. -/
def settle : List NodeId → List Node → List Node
  | _, [] => []
  | lost, n :: older =>
      let owners := n.owners - lost.count older.length
      if n.alive && owners = 0 then
        { n with owners := 0, alive := false } :: settle (n.parts ++ lost) older
      else { n with owners := owners } :: settle lost older

/-- The grammar without the rule of a name, and without what only that rule kept. -/
def drop (g : Grammar) (name : Text) : Grammar :=
  match g.stored? name with
  | none => g
  | some id =>
      { g with
        nodes := settle [id] g.nodes
        rules := g.rules.filter fun r => r.1 ≠ name }

/-- Stores a node under a name. The rule that the name had before is dropped. -/
def store (g : Grammar) (name : Text) (id : NodeId) : Grammar :=
  let kept := { g with nodes := acquire [id] g.nodes }.drop name
  { kept with rules := (name, id) :: kept.rules }

/-- Stores a new forward under a name. -/
def newForward (g : Grammar) (name : Text) : Grammar :=
  let (slot, g) := g.addSlot
  { g with forwards := (name, slot) :: g.forwards }

/-- Stores a second name for a forward that has one. -/
def cloneForward? (g : Grammar) (name copy : Text) : Option Grammar :=
  (g.forward? name).map fun slot => { g with forwards := (copy, slot) :: g.forwards }

/-! ## Forwards -/

/-- Whether a slot has been set. It stays so when its target is gone. -/
def isDefined (g : Grammar) (slot : Slot) : Bool :=
  (g.slotTarget? slot).isSome

/-- Points a slot to a node. A slot is set once; a second time is a defect and changes nothing. -/
def define (g : Grammar) (slot : Slot) (id : NodeId) : Traced Grammar :=
  if g.isDefined slot then .raise .redefinedForward else return g.setSlot slot id

/-- The written form of a forward. -/
def inspectForward (g : Grammar) (slot : Slot) : String :=
  "Forward \x7b defined: " ++ toString (g.isDefined slot) ++ " \x7d"

/-- The rule stored under a name, or else a reference to the forward of that name. -/
def named? (g : Grammar) (name : Text) : Option Rule :=
  (g.stored? name).bind g.rule? <|> (g.forward? name).map .forward

/-- What a slot points to now. -/
def target (g : Grammar) (slot : Slot) : Rule.Target :=
  match g.slotTarget? slot with
  | none => .undefined
  | some id =>
      match g.rule? id with
      | none => .dropped
      | some r => .rule r

/-- What a rule recognises now. -/
def recognizer (g : Grammar) (r : Rule) : Recognizer :=
  r.parse g.target g.slots.length

end Grammar

end Graft
