import Mathlib.Logic.Relation
import Graft.Proofs.Grammar.Step
import Graft.Proofs.Rule.Depth

/-!
# `Graft.Proofs.Grammar.Alive` — a rule is there as long as it is needed

In a tidy grammar a node is there just when it can be reached from a stored rule or a shared one, going
from nodes to their parts (`Grammar.Tidy.isAlive_iff_reachable`). Parts are older than what contains
them, so no node keeps itself and counting owners misses no cycle; forwards do not come into it. What a
type name refers to is the type name itself, so it is there whenever a rule that contains the type name
is (`Grammar.Tidy.target_of_contains`). All of that holds at every point of every session
(`Grammar.ownership_afterAll`).
-/

namespace Graft

/-- Whether a rule is another one or a part of it, at any depth. What forwards point to does not
    count. -/
def Rule.Contains : Rule → Rule → Prop :=
  Relation.ReflTransGen fun r part => part ∈ r.parts

namespace Grammar

variable {g : Grammar} {id part : NodeId} {r r' : Rule}

/-- Whether a node keeps another one as a part. -/
def Keeps (g : Grammar) (id part : NodeId) : Prop :=
  ∃ n, g.node? id = some n ∧ part ∈ n.parts

/-- The nodes that are needed: those stored under names, the shared ones, and the parts of what is
    needed. -/
inductive Reachable (g : Grammar) : NodeId → Prop
  | stored {name : Text} {id : NodeId} (h : g.stored? name = some id) : Reachable g id
  | shared {kind : Shared} {id : NodeId} (h : (kind, id) ∈ g.shared) : Reachable g id
  | part {id part : NodeId} (h : Reachable g id) (hpart : g.Keeps id part) : Reachable g part

theorem lookup_of_mem {rules : List (Text × NodeId)} {name : Text}
    (hnames : (rules.map Prod.fst).Nodup) (h : (name, id) ∈ rules) : rules.lookup name = some id := by
  induction rules with
  | nil => cases h
  | cons r others ih =>
      obtain ⟨hfresh, hothers⟩ := List.nodup_cons.mp hnames
      rcases List.mem_cons.mp h with rfl | h
      · exact List.lookup_cons_self
      · have hne : (name == r.1) = false := by
          refine beq_eq_false_iff_ne.mpr fun heq => hfresh ?_
          exact heq ▸ List.mem_map_of_mem h
        rw [List.lookup_cons, hne]
        exact ih hothers h

theorem target_of_rule? {slot : Slot} (hslot : g.slotTarget? slot = some id)
    (hr : g.rule? id = some r) : g.target slot = .rule r := by
  rw [target, hslot]
  dsimp only
  rw [hr]

theorem lt_of_target {slot : Slot} (h : g.target slot = .rule r) : slot < g.slots.length := by
  cases hslot : g.slotTarget? slot with
  | none =>
      rw [target, hslot] at h
      cases h
  | some id => exact lt_of_slotTarget? hslot

/-- Reading a `forward` is reading its `target`: one use of the slot, which leaves enough of them for the
    rest by `Rule.result_parse_forward`. -/
theorem result_recognizer_forward {slot : Slot} (h : g.target slot = .rule r) (t : Text) (pos : Nat) :
    (g.recognizer (.forward slot) t pos).result = (g.recognizer r t pos).result := by
  rw [recognizer, Rule.result_parse_forward (fun _ _ => lt_of_target), h]
  rfl

/-- A slot that was set to a node which is gone leads to nothing. -/
theorem target_of_gone {slot : Slot} (hslot : g.slotTarget? slot = some id)
    (hgone : g.isAlive id = false) : g.target slot = .dropped := by
  have hnone : g.rule? id = none := by
    refine Option.eq_none_iff_forall_ne_some.mpr fun r hr => ?_
    rw [(rule?_eq_some_iff.mp hr).1] at hgone
    cases hgone
  rw [target, hslot]
  dsimp only
  rw [hnone]

namespace Tidy

/-- Nodes are made after their parts, so `Keeps` goes down in number and cannot go around. -/
theorem lt_of_keeps (h : g.Tidy []) (hpart : g.Keeps id part) : part < id := by
  obtain ⟨n, hn, hmem⟩ := hpart
  exact h.counted.balanced.lt_of_part hn part hmem

/-- `Keeps` leads to older nodes only, and so does any chain of it. This is what rules out circles. -/
theorem lt_of_transGen_keeps (h : g.Tidy []) (hpath : Relation.TransGen g.Keeps id part) :
    part < id := by
  induction hpath with
  | single hpart => exact h.lt_of_keeps hpart
  | tail _ hpart ih => exact Nat.lt_trans (h.lt_of_keeps hpart) ih

/-- A node that is alive `Keeps` its parts alive: `Balanced.alive_iff` counts it as one of their
    owners. -/
theorem isAlive_part (h : g.Tidy []) (hid : g.isAlive id = true) (hpart : g.Keeps id part) :
    g.isAlive part = true := by
  obtain ⟨n, hn, hmem⟩ := hpart
  obtain ⟨n', hn', halive⟩ := isAlive_iff.mp hid
  obtain rfl := Option.some.inj (hn.symm.trans hn')
  have hlt : part < g.nodes.length :=
    Nat.lt_trans (h.lt_of_keeps ⟨n, hn, hmem⟩) (lt_of_nodeIn? hn)
  obtain ⟨m, hm⟩ := exists_nodeIn? hlt
  refine isAlive_iff.mpr ⟨m, hm, (h.counted.balanced.alive_iff hm).mpr ?_⟩
  exact .inr (.inr ⟨n, mem_of_nodeIn? hn, halive, hmem⟩)

/-- Being alive is handed on from the roots to everything `Reachable`, part by part. -/
theorem isAlive_of_reachable (h : g.Tidy []) (hid : g.Reachable id) : g.isAlive id = true := by
  induction hid with
  | stored hstored =>
      have hmem := List.mem_map_of_mem (f := Prod.snd) (mem_of_lookup hstored)
      exact h.counted.isAlive (.inr (List.mem_append_left _ hmem))
  | shared hshared => exact h.isAlive_shared hshared
  | part _ hpart ih => exact h.isAlive_part ih hpart

/-- The converse of `isAlive_of_reachable`. What is alive has an owner by `Balanced.alive_iff`, outside or
    among the nodes. An owner among the nodes is newer, so that the search ends, and it can only end
    outside. -/
theorem reachable_of_isAlive (h : g.Tidy []) {id : NodeId} (hid : g.isAlive id = true) :
    g.Reachable id := by
  obtain ⟨n, hn, halive⟩ := isAlive_iff.mp hid
  rcases (h.counted.balanced.alive_iff hn).mp halive with hloose | hkept | ⟨m, hm, hmalive, hmem⟩
  · cases hloose
  · rcases List.mem_append.mp (List.count_pos_iff.mp hkept) with hstored | hshared
    · obtain ⟨⟨name, _⟩, hrule, rfl⟩ := List.mem_map.mp hstored
      exact .stored (lookup_of_mem h.names hrule)
    · obtain ⟨⟨kind, _⟩, hrule, rfl⟩ := List.mem_map.mp hshared
      exact .shared hrule
  · obtain ⟨owner, howner⟩ := exists_nodeIn?_of_mem hm
    have hkeeps : g.Keeps owner id := ⟨m, howner, hmem⟩
    have hnewer := h.lt_of_keeps hkeeps
    have hlt := lt_of_nodeIn? hn
    exact .part (h.reachable_of_isAlive (isAlive_iff.mpr ⟨m, howner, hmalive⟩)) hkeeps
termination_by g.nodes.length - id
decreasing_by exact Nat.sub_lt_sub_left hlt hnewer

/-- `isAlive` is kept by counting owners, `Reachable` follows the parts from the roots. In a `Tidy`
    grammar both are the same. -/
theorem isAlive_iff_reachable (h : g.Tidy []) (id : NodeId) :
    g.isAlive id = true ↔ g.Reachable id :=
  ⟨h.reachable_of_isAlive, h.isAlive_of_reachable⟩

/-- In a `Tidy` grammar the parts of a node were made for the parts of its rule, one for each and in
    order. -/
theorem parts_eq (h : g.Tidy []) {n : Node} (hn : g.node? id = some n) :
    n.parts.map g.made? = n.rule.parts.map some :=
  h.formed.parts n.make (List.mem_map_of_mem (mem_of_nodeIn? hn))

/-- What a rule `Contains` has a node that is alive if the rule has one, by `isAlive_part` at each
    level. -/
theorem exists_rule?_of_contains (h : g.Tidy []) (hr : g.rule? id = some r) (hin : r.Contains r') :
    ∃ id', g.rule? id' = some r' := by
  induction hin with
  | refl => exact ⟨id, hr⟩
  | tail _ hpart ih =>
      obtain ⟨whole, hwhole⟩ := ih
      obtain ⟨halive, hmade⟩ := rule?_eq_some_iff.mp hwhole
      obtain ⟨n, hn, rfl⟩ := Option.map_eq_some_iff.mp hmade
      have hmem := List.mem_map_of_mem (f := some) hpart
      rw [← h.parts_eq hn] at hmem
      obtain ⟨p, hp, hpmade⟩ := List.mem_map.mp hmem
      exact ⟨p, rule?_eq_some_iff.mpr ⟨h.isAlive_part halive ⟨n, hn, hp⟩, hpmade⟩⟩

/-- A type name inside a rule that is alive is alive itself (`exists_rule?_of_contains`), so the slot that
    refers back to it has it for its `target`. -/
theorem target_of_contains (h : g.Tidy []) (hr : g.rule? id = some r) {own : Slot} {name : Rule}
    (hin : r.Contains (.typeName own name)) : g.target own = .rule (.typeName own name) := by
  obtain ⟨id', hid'⟩ := h.exists_rule?_of_contains hr hin
  exact target_of_rule? (h.formed.typeNames id' own name (rule?_eq_some_iff.mp hid').2) hid'

/-- What `isAlive` needs: a node with no owner outside and no owner alive is gone. Slots that were set to
    it are no owners, not even those in its own rule. -/
theorem isAlive_eq_false (h : g.Tidy []) (hstored : ∀ name, g.stored? name ≠ some id)
    (hshared : ∀ kind, (kind, id) ∉ g.shared)
    (hparts : ∀ owner, g.isAlive owner = true → ¬ g.Keeps owner id) : g.isAlive id = false := by
  by_contra hid
  rcases h.reachable_of_isAlive (Bool.not_eq_false _ ▸ hid) with hname | hkind | ⟨howner, hpart⟩
  · exact hstored _ hname
  · exact hshared _ hkind
  · exact hparts _ (h.isAlive_of_reachable howner) hpart

end Tidy

/-- **Ownership.** After any session, started `empty`:

    - `Keeps` has no circles;
    - a node `Keeps` the nodes of the parts of its rule and nothing else; a forward has no parts;
    - a node is alive just when it is `Reachable` from a stored rule or a shared one;
    - a node that is neither stored nor shared nor a part of one that is alive is gone, and a forward that
      was set to it, be it from inside its own rule, has the `target` `dropped`;
    - the slot of a `typeName` leads to the type name, in every rule that is alive, and reads type
      names. -/
theorem ownership_afterAll [Regex.Engine] (steps : List Step) :
    let g := empty.afterAll steps
    (∀ id, ¬ Relation.TransGen g.Keeps id id) ∧
    (∀ id n, g.node? id = some n → n.parts.map g.made? = n.rule.parts.map some) ∧
    (∀ id, g.isAlive id = true ↔ g.Reachable id) ∧
    (∀ id, (∀ name, g.stored? name ≠ some id) → (∀ kind, (kind, id) ∉ g.shared) →
      (∀ owner, g.isAlive owner = true → ¬ g.Keeps owner id) →
      g.isAlive id = false ∧ ∀ slot, g.slotTarget? slot = some id → g.target slot = .dropped) ∧
    ∀ id r own name, g.rule? id = some r → r.Contains (.typeName own name) →
      g.target own = .rule (.typeName own name) ∧
        ∀ t pos, (g.recognizer (.forward own) t pos).result
          = (g.recognizer (.typeName own name) t pos).result := by
  intro g
  have h : g.Tidy [] := tidy_afterAll steps
  refine ⟨fun id hcycle => ?_, fun _ _ => h.parts_eq, h.isAlive_iff_reachable, ?_, ?_⟩
  · exact Nat.lt_irrefl id (h.lt_of_transGen_keeps hcycle)
  · intro id hstored hshared hparts
    have hgone := h.isAlive_eq_false hstored hshared hparts
    exact ⟨hgone, fun _ hslot => target_of_gone hslot hgone⟩
  · intro id r own name hr hin
    have htarget := h.target_of_contains hr hin
    exact ⟨htarget, result_recognizer_forward htarget⟩

/-- A rule that refers to itself and to nothing else outlives neither its name. -/
example : (empty.afterAll [.newForward ['f'], .storeRule ['r'] (.optional (.ref ['f'])),
    .define ['f'] ['r'], .dropRule ['r']]).isAlive 1 = false := by
  rfl

end Grammar

end Graft
