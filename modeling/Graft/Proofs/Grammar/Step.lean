import Mathlib.Data.List.Basic
import Graft.Grammar.Session
import Graft.Proofs.Grammar.Build

/-!
# `Graft.Proofs.Grammar.Step` — what the steps of a session do

A step of a session either leaves a grammar as it is or makes one of five moves (`Grammar.Move`). All of
them keep a grammar tidy, and after them nodes are made of the same as before and slots that were set
are set to the same (`Grammar.Tidy.move`). So that holds of all sessions (`Grammar.Tidy.afterAll`,
`Grammar.tidy_afterAll`).
-/

namespace Graft

namespace Grammar

open Blueprint (Build)

variable {g g' : Grammar} {id : NodeId} {name forward rule : Text} {slot : Slot}

/-! ## Names -/

/-- What `lookup` finds is the only rule of its name, and `filter` takes off just this one. -/
theorem perm_of_lookup {rules : List (Text × NodeId)} (hnames : (rules.map Prod.fst).Nodup)
    (h : rules.lookup name = some id) :
    rules.Perm ((name, id) :: rules.filter fun r => r.1 ≠ name) := by
  induction rules with
  | nil => cases h
  | cons r others ih =>
      obtain ⟨hfresh, hothers⟩ := List.nodup_cons.mp hnames
      rw [List.lookup_cons] at h
      split at h
      next heq =>
        obtain rfl := eq_of_beq heq
        obtain rfl := Option.some.inj h
        have hall : ∀ o ∈ others, o.1 ≠ r.1 := fun o ho heq => hfresh (heq ▸ List.mem_map_of_mem ho)
        rw [List.filter_cons_of_neg (by simp), List.filter_eq_self.mpr (by simpa using hall)]
      next hne =>
        have hr : r.1 ≠ name := fun heq => by simp [heq] at hne
        rw [List.filter_cons_of_pos (by simpa using hr)]
        exact ((ih hothers h).cons r).trans (.swap ..)

theorem not_mem_of_lookup {rules : List (Text × NodeId)} (h : rules.lookup name = none) :
    name ∉ rules.map Prod.fst := by
  intro hmem
  obtain ⟨r, hr, rfl⟩ := List.mem_map.mp hmem
  have hne := List.lookup_eq_none_iff.mp h r hr
  simp at hne

/-- After `drop` nothing is stored under the name. -/
theorem not_mem_drop (g : Grammar) (name : Text) : name ∉ (g.drop name).rules.map Prod.fst := by
  unfold drop
  split
  next h => exact not_mem_of_lookup h
  next => simp

theorem sublist_drop (g : Grammar) (name : Text) : (g.drop name).rules.Sublist g.rules := by
  unfold drop
  split
  · exact .refl _
  · exact List.filter_sublist

theorem makes_drop (g : Grammar) (name : Text) : (g.drop name).makes = g.makes := by
  unfold drop
  split
  · rfl
  · exact map_make_settle ..

theorem slots_drop (g : Grammar) (name : Text) : (g.drop name).slots = g.slots := by
  unfold drop
  split <;> rfl

theorem forwards_drop (g : Grammar) (name : Text) : (g.drop name).forwards = g.forwards := by
  unfold drop
  split <;> rfl

theorem shared_drop (g : Grammar) (name : Text) : (g.drop name).shared = g.shared := by
  unfold drop
  split <;> rfl

/-- `drop` takes one owner off the node, the name, and `Balanced.settle` the parts of what is gone with
    it. Other nodes may be `held` besides. -/
theorem balanced_drop (hnames : (g.rules.map Prod.fst).Nodup) (name : Text) (held : List NodeId)
    (h : Balanced [] (fun id => (held ++ g.outside).count id) g.nodes) :
    Balanced [] (fun id => (held ++ (g.drop name).outside).count id) (g.drop name).nodes := by
  unfold drop
  split
  · exact h
  next id hid =>
    refine .settle [id] ?_
    have hperm := (perm_of_lookup hnames hid).map Prod.snd
    have hcounts : (fun p => (held ++ g.outside).count p) = fun p => (held ++ outside
        { g with nodes := settle [id] g.nodes, rules := g.rules.filter fun r => r.1 ≠ name }).count p
          + [id].count p := by
      funext p
      simp only [outside, List.count_append, hperm.count_eq p, List.map_cons, List.count_cons,
        List.count_nil]
      omega
    rw [← hcounts]
    exact h

theorem later_drop (g : Grammar) (name : Text) : g.Later (g.drop name) :=
  .of_eq (makes_drop g name) (slots_drop g name)

theorem makes_store (g : Grammar) (name : Text) (id : NodeId) : (g.store name id).makes = g.makes :=
  (makes_drop _ name).trans (map_make_acquire [id] g.nodes)

theorem slots_store (g : Grammar) (name : Text) (id : NodeId) : (g.store name id).slots = g.slots :=
  slots_drop _ name

theorem forwards_store (g : Grammar) (name : Text) (id : NodeId) :
    (g.store name id).forwards = g.forwards :=
  forwards_drop _ name

theorem shared_store (g : Grammar) (name : Text) (id : NodeId) :
    (g.store name id).shared = g.shared :=
  shared_drop _ name

theorem later_store (g : Grammar) (name : Text) (id : NodeId) : g.Later (g.store name id) :=
  .of_eq (makes_store g name id) (slots_store g name id)

theorem outside_drop_subset (g : Grammar) (name : Text) : (g.drop name).outside ⊆ g.outside := by
  intro id hid
  rcases List.mem_append.mp hid with hid | hid
  · exact List.mem_append_left _ (((sublist_drop g name).map Prod.snd).subset hid)
  · exact List.mem_append_right _ (shared_drop g name ▸ hid)

theorem mem_outside_store {p : NodeId} (h : p ∈ (g.store name id).outside) :
    p = id ∨ p ∈ g.outside :=
  (List.mem_cons.mp h).imp_right (@outside_drop_subset { g with nodes := acquire [id] g.nodes } name p)

namespace Tidy

/-- `Tidy` is kept by `drop`: the node loses one owner, and with its last one the nodes that it kept are
    released. -/
theorem drop (h : g.Tidy []) (name : Text) : (g.drop name).Tidy [] := by
  refine ⟨?_, ⟨?_, ?_⟩, h.names.sublist ((sublist_drop g name).map Prod.fst)⟩
  · refine h.formed.later (later_drop g name) (makes_drop g name) ?_
      (shared_drop g name ▸ h.formed.shared)
    rw [forwards_drop, slots_drop]
    exact h.formed.forwards
  · exact balanced_drop h.names name [] h.counted.balanced
  · rw [← length_makes, makes_drop, length_makes]
    exact fun id hid => h.counted.known id (hid.imp_right (@outside_drop_subset g name id))

/-- `store` gives a node that is held the name for its owner, once `drop` has taken the name off another
    one. -/
theorem store (h : g.Tidy [id]) (name : Text) : (g.store name id).Tidy [] := by
  refine ⟨?_, ⟨?_, ?_⟩, ?_⟩
  · refine h.formed.later (later_store g name id) (makes_store g name id) ?_ ?_
    · rw [slots_store, forwards_store]
      exact h.formed.forwards
    · rw [shared_store]
      exact h.formed.shared
  · -- the name is an owner of the new node before it is none of the old one any more
    have hkept := h.counted.balanced.acquire [id] fun _ hid => hid
    have hcounts : (fun p => g.outside.count p + [id].count p)
        = fun p => ([id] ++ g.outside).count p := by
      funext p
      rw [List.count_append, Nat.add_comm]
    rw [hcounts] at hkept
    have hnone : Balanced [] (fun p => ([id] ++ g.outside).count p) (acquire [id] g.nodes) := by
      refine hkept.loosen (by simp) fun p hp => .inr (List.count_pos_iff.mpr ?_)
      exact List.mem_append_left _ hp
    exact balanced_drop (g := { g with nodes := acquire [id] g.nodes }) h.names name [id] hnone
  · rw [← length_makes, makes_store, length_makes]
    rintro p (hp | hp)
    · cases hp
    · rcases mem_outside_store hp with rfl | hp
      · exact h.counted.known p (.inl (.head _))
      · exact h.counted.known p (.inr hp)
  · refine List.nodup_cons.mpr ⟨not_mem_drop _ name, ?_⟩
    exact h.names.sublist ((sublist_drop _ name).map Prod.fst)

end Tidy

/-! ## The moves of a session -/

/-- What a step may do to a grammar. -/
inductive Move [Regex.Engine] (g : Grammar) : Step → Grammar → Prop
  | newForward (name : Text) : Move g (.newForward name) (g.newForward name)
  | cloneForward {name copy : Text} {slot : Slot} (h : g.forward? name = some slot) :
      Move g (.cloneForward name copy) { g with forwards := (copy, slot) :: g.forwards }
  | storeRule {name : Text} {b : Blueprint} {r : NodeId × Rule} {g' : Grammar}
      (h : b.build.run g = .ok (r, g')) : Move g (.storeRule name b) (g'.store name r.1)
  | dropRule (name : Text) : Move g (.dropRule name) (g.drop name)
  | define {forward rule : Text} {slot : Slot} {id : NodeId} (hslot : g.forward? forward = some slot)
      (hid : g.stored? rule = some id) (hunset : g.slotTarget? slot = none) :
      Move g (.define forward rule) (g.setSlot slot id)
  /-- Questions change nothing, and neither do steps that fail. -/
  | stay (s : Step) : Move g s g

/-- The first `define` of a slot sets it. -/
theorem step_define [Regex.Engine] (hslot : g.forward? forward = some slot)
    (hid : g.stored? rule = some id) (hunset : g.slotTarget? slot = none) :
    g.step (.define forward rule) = pure (g.setSlot slot id, .done) := by
  rw [step, hid]
  dsimp only
  rw [withForward, hslot]
  dsimp only
  rw [define, isDefined, hunset]
  rfl

/-- A second one is the defect `redefinedForward`. -/
theorem step_define_again [Regex.Engine] (hslot : g.forward? forward = some slot)
    (hid : g.stored? rule = some id) {first : NodeId} (hset : g.slotTarget? slot = some first) :
    g.step (.define forward rule) = .raise .redefinedForward := by
  rw [step, hid]
  dsimp only
  rw [withForward, hslot]
  dsimp only
  rw [define, isDefined, hset]
  rfl

/-- Every step of a session makes one of the moves. This is all that later proofs use of `after`. -/
theorem move_after [Regex.Engine] (g : Grammar) (s : Step) : Move g s (g.after s) := by
  cases s with
  | newForward name => exact .newForward name
  | cloneForward name copy =>
      rw [after, step, cloneForward?]
      cases hslot : g.forward? name with
      | none => exact .stay _
      | some slot => exact .cloneForward hslot
  | storeRule name b =>
      rw [after, step, storeRule]
      cases hrun : b.build.run g with
      | error e => exact .stay _
      | ok built => exact .storeRule hrun
  | dropRule name => exact .dropRule name
  | define forward rule =>
      cases hid : g.stored? rule with
      | none =>
          rw [after, step, hid]
          exact .stay _
      | some id =>
          cases hslot : g.forward? forward with
          | none =>
              rw [after, step, hid]
              dsimp only
              rw [withForward, hslot]
              exact .stay _
          | some slot =>
              cases htarget : g.slotTarget? slot with
              | none =>
                  rw [after, step_define hslot hid htarget]
                  exact .define hslot hid htarget
              | some first =>
                  rw [after, step_define_again hslot hid htarget]
                  exact .stay _
  | isDefined forward =>
      rw [after, step, withForward]
      cases g.forward? forward <;> exact .stay _
  | inspect forward =>
      rw [after, step, withForward]
      cases g.forward? forward <;> exact .stay _
  | read name t pos =>
      rw [after, step]
      cases g.named? name with
      | none => exact .stay _
      | some r =>
          dsimp only
          rw [Traced.result_bind]
          cases (g.recognizer r t pos).result <;> exact .stay _

/-- Each `Move` keeps a grammar `Tidy`, and `Later` grammars have all the nodes and targets of earlier
    ones. One case for each constructor, with the lemma of the function that it goes by. -/
theorem Tidy.move [Regex.Engine] (h : g.Tidy []) {s : Step} (hmove : g.Move s g') :
    g'.Tidy [] ∧ g.Later g' := by
  cases hmove with
  | newForward name =>
      have hslotted := h.addSlot
      refine ⟨⟨?_, hslotted.counted.of_nodes rfl rfl, h.names⟩,
        (grown_addSlot g).later.trans (.of_eq rfl rfl)⟩
      refine hslotted.formed.later (.of_eq rfl rfl) rfl ?_ hslotted.formed.shared
      rintro f (_ | ⟨_, hf⟩)
      · simp [Grammar.newForward, Grammar.addSlot]
      · exact hslotted.formed.forwards f hf
  | @cloneForward name copy slot hslot =>
      refine ⟨⟨?_, h.counted.of_nodes rfl rfl, h.names⟩, .of_eq rfl rfl⟩
      refine h.formed.later (.of_eq rfl rfl) rfl ?_ h.formed.shared
      rintro f (_ | ⟨_, hf⟩)
      · exact h.formed.forwards (name, slot) (mem_of_lookup hslot)
      · exact h.formed.forwards f hf
  | storeRule hrun =>
      have hbuilt := builds_build _ h hrun
      exact ⟨hbuilt.tidy.store _, hbuilt.grown.later.trans (later_store ..)⟩
  | dropRule name => exact ⟨h.drop name, later_drop g name⟩
  | @define _ _ slot id hslot hid hunset =>
      have hlater : g.Later (g.setSlot slot id) :=
        ⟨List.suffix_rfl, by simp [setSlot], (extends_setSlot hunset id).slot⟩
      refine ⟨⟨?_, h.counted.of_nodes rfl rfl, h.names⟩, hlater⟩
      refine h.formed.later hlater rfl (fun f hf => ?_) h.formed.shared
      exact Nat.lt_of_lt_of_le (h.formed.forwards f hf) hlater.slots
  | stay => exact ⟨h, .refl g⟩

/-! ## Sessions -/

theorem tidy_empty : empty.Tidy [] := by
  refine ⟨⟨?_, ?_, ?_, ?_, ?_⟩, ⟨.nil, ?_⟩, .nil⟩
  · simp [makes, empty]
  · simp [made?_eq, makes, empty]
  · simp [made?_eq, makes, empty]
  · simp [empty]
  · simp [empty]
  · simp [outside, empty]

/-- The run of a session: `Tidy` is kept by every `Move`, and each grammar on the way is `Later` than the
    ones before. -/
theorem Tidy.afterAll [Regex.Engine] (h : g.Tidy []) (steps : List Step) :
    (g.afterAll steps).Tidy [] ∧ g.Later (g.afterAll steps) := by
  induction steps generalizing g with
  | nil => exact ⟨h, .refl g⟩
  | cons s others ih =>
      obtain ⟨hafter, hlater⟩ := h.move (move_after g s)
      obtain ⟨hall, hothers⟩ := ih hafter
      exact ⟨hall, hlater.trans hothers⟩

/-- The run of `Tidy.move`, from `empty`. -/
theorem tidy_afterAll [Regex.Engine] (steps : List Step) : (empty.afterAll steps).Tidy [] :=
  (tidy_empty.afterAll steps).1

end Grammar

end Graft
