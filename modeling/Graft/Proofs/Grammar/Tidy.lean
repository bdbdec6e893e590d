import Graft.Proofs.Grammar.Ownership

/-!
# `Graft.Proofs.Grammar.Tidy` — what holds of every grammar

A grammar is *tidy* (`Grammar.Tidy`) when its nodes are well formed and its counts are right. Well
formed (`Grammar.Formed`) means that the parts of a node are the nodes of the parts of its rule, and
that the slot of a type name leads back to the node of the type name. The counts (`Grammar.Counted`)
are right when the nodes are balanced by the names that rules are stored under and by the shared rules.

What makes a grammar grow keeps it tidy: new nodes (`Grammar.Tidy.add`), new type names
(`Grammar.Tidy.addTypeName`) and shared rules (`Grammar.Tidy.sharedRule`). All of them leave names,
nodes and slots that were there as they were (`Grammar.Grown`).
-/

namespace Graft

/-- The rules that a rule is directly made of. What a forward points to is none of them. -/
def Rule.parts : Rule → List Rule
  | .join parts | .choice parts | .group parts => parts
  | .optional part => [part]
  | .list item separator opening closing _ _ =>
      [item, separator] ++ opening.toList ++ closing.toList
  | .typeName _ name => [name]
  | _ => []

namespace Grammar

variable {g g' g'' : Grammar} {id : NodeId} {r rule : Rule} {slot : Slot}
  {loose loose' parts : List NodeId}

/-! ## What nodes are made of -/

/-- What the nodes of a grammar are made of, the newest first. -/
def makes (g : Grammar) : List (Rule × List NodeId) :=
  g.nodes.map Node.make

/-- The rule that a node was made for, whether the node is still there or not. -/
def made? (g : Grammar) (id : NodeId) : Option Rule :=
  (g.node? id).map Node.rule

@[simp] theorem length_makes (g : Grammar) : g.makes.length = g.nodes.length :=
  List.length_map ..

theorem made?_eq (g : Grammar) (id : NodeId) : g.made? id = g.makes.reverse[id]?.map Prod.fst := by
  rw [made?, node?, nodeIn?_eq, makes, ← List.map_reverse, List.getElem?_map, Option.map_map]
  rfl

theorem made?_congr (h : g'.makes = g.makes) : g'.made? = g.made? := by
  funext id
  rw [made?_eq, made?_eq, h]

theorem lt_of_made? (h : g.made? id = some r) : id < g.nodes.length := by
  obtain ⟨n, hn, -⟩ := Option.map_eq_some_iff.mp h
  exact lt_of_nodeIn? hn

theorem exists_made? (h : id < g.nodes.length) : ∃ r, g.made? id = some r := by
  obtain ⟨n, hn⟩ := exists_nodeIn? h
  exact ⟨n.rule, by rw [made?, node?, hn]; rfl⟩

theorem made?_of_suffix (h : g.makes <:+ g'.makes) (hr : g.made? id = some r) :
    g'.made? id = some r := by
  obtain ⟨newer, hnewer⟩ := h
  have hlt : id < g.makes.reverse.length := by simpa using lt_of_made? hr
  rw [made?_eq, ← hnewer, List.reverse_append, List.getElem?_append_left hlt, ← made?_eq, hr]

/-- What nodes were made for does not change when `makes` gets longer. -/
theorem map_made?_of_suffix (h : g.makes <:+ g'.makes) {ids : List NodeId} {rules : List Rule}
    (hrules : ids.map g.made? = rules.map some) : ids.map g'.made? = rules.map some := by
  rw [← hrules]
  refine List.map_congr_left fun p hp => ?_
  have hmem : g.made? p ∈ ids.map g.made? := List.mem_map_of_mem hp
  rw [hrules] at hmem
  obtain ⟨r, -, hr⟩ := List.mem_map.mp hmem
  rw [← hr, made?_of_suffix h hr.symm]

theorem made?_cons (h : g'.makes = (rule, parts) :: g.makes) :
    g'.made? g.nodes.length = some rule := by
  rw [made?_eq, h, List.reverse_cons, ← length_makes, ← List.length_reverse,
    List.getElem?_concat_length]
  rfl

/-- `rule?` is `made?` as long as the node is alive. -/
theorem rule?_eq_some_iff : g.rule? id = some r ↔ g.isAlive id = true ∧ g.made? id = some r := by
  rw [rule?, isAlive, made?]
  cases g.node? id with
  | none => simp
  | some n => cases h : n.alive <;> simp [Option.filter, h]

theorem exists_rule? (h : g.isAlive id = true) : ∃ r, g.rule? id = some r := by
  cases hmade : g.made? id with
  | none =>
      rw [isAlive, Option.map_eq_none_iff.mp hmade] at h
      cases h
  | some r => exact ⟨r, rule?_eq_some_iff.mpr ⟨h, hmade⟩⟩

theorem isAlive_iff : g.isAlive id = true ↔ ∃ n, nodeIn? g.nodes id = some n ∧ n.alive = true := by
  rw [isAlive, node?]
  cases nodeIn? g.nodes id <;> simp

theorem slotTarget?_of_slots (h : g.slots <+: g'.slots) (hslot : slot < g.slots.length) :
    g'.slotTarget? slot = g.slotTarget? slot := by
  obtain ⟨newer, hnewer⟩ := h
  rw [slotTarget?, slotTarget?, ← hnewer, List.getElem?_append_left hslot]

/-! ## Growing -/

/-- Nodes and slots have been added, and nothing else has changed but the shared rules. -/
structure Grown (g g' : Grammar) : Prop where
  makes : g.makes <:+ g'.makes
  slots : g.slots <+: g'.slots
  rules : g'.rules = g.rules
  forwards : g'.forwards = g.forwards

/-- A grammar some time after another one. Nodes are still made of the same, and slots that were set
    are set to the same. -/
structure Later (g g' : Grammar) : Prop where
  makes : g.makes <:+ g'.makes
  slots : g.slots.length ≤ g'.slots.length
  target : ∀ slot id, g.slotTarget? slot = some id → g'.slotTarget? slot = some id

theorem Later.refl (g : Grammar) : g.Later g :=
  ⟨List.suffix_rfl, Nat.le_refl _, fun _ _ h => h⟩

theorem Later.trans (h : g.Later g') (h' : g'.Later g'') : g.Later g'' :=
  ⟨h.makes.trans h'.makes, Nat.le_trans h.slots h'.slots,
    fun slot id htarget => h'.target slot id (h.target slot id htarget)⟩

/-- Counts and names are not what `Later` is about. -/
theorem Later.of_eq (hmakes : g'.makes = g.makes) (hslots : g'.slots = g.slots) : g.Later g' := by
  have htarget (slot : Slot) : g'.slotTarget? slot = g.slotTarget? slot := by
    rw [slotTarget?, slotTarget?, hslots]
  exact ⟨hmakes ▸ List.suffix_rfl, hslots ▸ Nat.le_refl _, fun slot id h => (htarget slot).trans h⟩

theorem Grown.later (h : g.Grown g') : g.Later g' := by
  refine ⟨h.makes, h.slots.length_le, fun slot id htarget => ?_⟩
  rw [slotTarget?_of_slots h.slots (lt_of_slotTarget? htarget), htarget]

theorem Grown.refl (g : Grammar) : g.Grown g :=
  ⟨List.suffix_rfl, List.prefix_rfl, rfl, rfl⟩

theorem Grown.trans (h : g.Grown g') (h' : g'.Grown g'') : g.Grown g'' :=
  ⟨h.makes.trans h'.makes, h.slots.trans h'.slots, h'.rules.trans h.rules,
    h'.forwards.trans h.forwards⟩

theorem makes_add (g : Grammar) (rule : Rule) (parts : List NodeId) :
    (g.add rule parts).2.makes = (rule, parts) :: g.makes := by
  rw [makes, add, List.map_cons, map_make_acquire]
  rfl

theorem grown_add (g : Grammar) (rule : Rule) (parts : List NodeId) :
    g.Grown (g.add rule parts).2 := by
  refine ⟨?_, List.prefix_rfl, rfl, rfl⟩
  rw [makes_add]
  exact List.suffix_cons ..

theorem grown_addSlot (g : Grammar) : g.Grown g.addSlot.2 :=
  ⟨List.suffix_rfl, List.prefix_append .., rfl, rfl⟩

theorem makes_keepShared (g : Grammar) (name : Shared) (id : NodeId) :
    (g.keepShared name id).makes = g.makes :=
  map_make_acquire ..

theorem grown_keepShared (g : Grammar) (name : Shared) (id : NodeId) :
    g.Grown (g.keepShared name id) :=
  ⟨(makes_keepShared g name id).symm ▸ List.suffix_rfl, List.prefix_rfl, rfl, rfl⟩

/-- What `addTypeName` adds to `makes` and to `slots`: one node, and one slot that is set to it. -/
theorem makes_addTypeName (g : Grammar) (part : NodeId) (name : Rule) :
    (g.addTypeName part name).2.makes = (.typeName g.slots.length name, [part]) :: g.makes ∧
      (g.addTypeName part name).2.slots = g.slots ++ [some g.nodes.length] := by
  refine ⟨makes_add g.addSlot.2 (.typeName g.slots.length name) [part], ?_⟩
  show (g.slots ++ [none]).set g.slots.length (some g.nodes.length) = _
  rw [List.set_append_right _ _ (Nat.le_refl _), Nat.sub_self]
  rfl

/-- A node of a type name comes with a slot of its own. -/
theorem grown_addTypeName (g : Grammar) (part : NodeId) (name : Rule) :
    g.Grown (g.addTypeName part name).2 := by
  obtain ⟨hmakes, hslots⟩ := makes_addTypeName g part name
  refine ⟨?_, ?_, rfl, rfl⟩
  · rw [hmakes]
    exact List.suffix_cons ..
  · rw [hslots]
    exact List.prefix_append ..

theorem grown_simpleShared (g : Grammar) (name : Shared) (rule : Rule) :
    g.Grown (g.simpleShared name rule).2 := by
  unfold simpleShared
  split
  · exact .refl g
  · exact (grown_add g rule []).trans (grown_keepShared ..)

/-! ## Nodes that are well formed -/

/-- Nodes and slots belong together. -/
structure Formed (g : Grammar) : Prop where
  /-- The parts of a node are the nodes of the parts of its rule. -/
  parts : ∀ m ∈ g.makes, m.2.map g.made? = m.1.parts.map some
  /-- The slot of a type name leads back to its node. -/
  typeNames : ∀ id own name, g.made? id = some (.typeName own name) → g.slotTarget? own = some id
  /-- There is a slot for every rule that refers to one. -/
  references : ∀ id slot, g.made? id = some (.forward slot) → slot < g.slots.length
  /-- There is a slot for every forward that is stored. -/
  forwards : ∀ f ∈ g.forwards, f.2 < g.slots.length
  /-- The shared rule of dotted names reads dotted names. -/
  shared : ∀ id, (Shared.dottedWord, id) ∈ g.shared → g.made? id = some .dottedWord

namespace Formed

/-- `Formed` speaks of what nodes are made of and of what slots are set to, and of nothing else. -/
theorem later (h : g.Formed) (hlater : g.Later g') (hmakes : g'.makes = g.makes)
    (hforwards : ∀ f ∈ g'.forwards, f.2 < g'.slots.length)
    (hshared : ∀ id, (Shared.dottedWord, id) ∈ g'.shared → g.made? id = some .dottedWord) :
    g'.Formed := by
  have hmade := made?_congr hmakes
  refine ⟨?_, ?_, ?_, hforwards, ?_⟩
  · rw [hmakes, hmade]
    exact h.parts
  · rw [hmade]
    exact fun id own name hr => hlater.target own id (h.typeNames id own name hr)
  · rw [hmade]
    exact fun id slot hr => Nat.lt_of_lt_of_le (h.references id slot hr) hlater.slots
  · rw [hmade]
    exact hshared

/-- `Formed` with one node more, and perhaps with more slots. -/
theorem cons (h : g.Formed) (hgrown : g.Grown g') (hmakes : g'.makes = (rule, parts) :: g.makes)
    (hshared : g'.shared = g.shared) (hparts : parts.map g.made? = rule.parts.map some)
    (htypeName : ∀ own name, rule = .typeName own name → g'.slotTarget? own = some g.nodes.length)
    (hforward : ∀ slot, rule = .forward slot → slot < g'.slots.length) : g'.Formed := by
  have hold : ∀ {id r}, g.made? id = some r → g'.made? id = some r :=
    made?_of_suffix hgrown.makes
  have hnew := made?_cons hmakes
  have hsplit : ∀ {id r}, g'.made? id = some r →
      g.made? id = some r ∨ id = g.nodes.length ∧ rule = r := by
    intro id r hr
    have hlt : id < g'.makes.length := (length_makes g').symm ▸ lt_of_made? hr
    rw [hmakes, List.length_cons, length_makes] at hlt
    rcases Nat.lt_succ_iff_lt_or_eq.mp hlt with hlt | rfl
    · obtain ⟨r', hr'⟩ := exists_made? hlt
      rw [hold hr'] at hr
      exact .inl (hr' ▸ hr)
    · rw [hnew] at hr
      exact .inr ⟨rfl, Option.some.inj hr⟩
  refine ⟨?_, ?_, ?_, ?_, ?_⟩
  · intro m hm
    rw [hmakes] at hm
    rcases List.mem_cons.mp hm with rfl | hm
    · exact map_made?_of_suffix hgrown.makes hparts
    · exact map_made?_of_suffix hgrown.makes (h.parts m hm)
  · intro id own name hr
    rcases hsplit hr with hr | ⟨rfl, hrule⟩
    · exact hgrown.later.target own id (h.typeNames id own name hr)
    · exact htypeName own name hrule
  · intro id slot hr
    rcases hsplit hr with hr | ⟨rfl, hrule⟩
    · exact Nat.lt_of_lt_of_le (h.references id slot hr) hgrown.later.slots
    · exact hforward slot hrule
  · rw [hgrown.forwards]
    exact fun f hf => Nat.lt_of_lt_of_le (h.forwards f hf) hgrown.later.slots
  · rw [hshared]
    exact fun id hid => hold (h.shared id hid)

end Formed

/-! ## Counts -/

/-- The nodes that are kept from outside: those stored under names, and the shared ones. -/
def outside (g : Grammar) : List NodeId :=
  g.rules.map Prod.snd ++ g.shared.map Prod.snd

/-- The counts of owners are right, while a caller has a hold of some nodes. -/
structure Counted (g : Grammar) (loose : List NodeId) : Prop where
  balanced : Balanced loose (fun id => g.outside.count id) g.nodes
  /-- Only nodes that were made are held or kept. -/
  known : ∀ id, id ∈ loose ∨ id ∈ g.outside → id < g.nodes.length

namespace Counted

theorem isAlive (h : g.Counted loose) (hid : id ∈ loose ∨ id ∈ g.outside) : g.isAlive id = true := by
  obtain ⟨n, hn⟩ := exists_nodeIn? (h.known id hid)
  refine isAlive_iff.mpr ⟨n, hn, (h.balanced.alive_iff hn).mpr ?_⟩
  exact hid.imp_right fun hmem => .inl (List.count_pos_iff.mpr hmem)

/-- `Counted` does not ask how the loose nodes are listed. -/
theorem congr (h : g.Counted loose) (hmem : ∀ id, id ∈ loose' ↔ id ∈ loose) : g.Counted loose' := by
  refine ⟨h.balanced.loosen (fun id _ => (hmem id).mp) fun id hid => .inl ((hmem id).mpr hid), ?_⟩
  exact fun id hid => h.known id (hid.imp_left (hmem id).mp)

/-- `Counted` does not look at slots and forwards. -/
theorem of_nodes (h : g.Counted loose) (hnodes : g'.nodes = g.nodes)
    (houtside : g'.outside = g.outside) : g'.Counted loose := by
  constructor
  · rw [hnodes, houtside]
    exact h.balanced
  · rw [hnodes, houtside]
    exact h.known

/-- A caller gets hold of a node that is alive, by `Balanced.hold`. -/
theorem hold (h : g.Counted loose) (hid : g.isAlive id = true) : g.Counted (id :: loose) := by
  obtain ⟨n, hn, halive⟩ := isAlive_iff.mp hid
  refine ⟨h.balanced.hold hn halive, ?_⟩
  rintro other (hmem | hmem)
  · rcases List.mem_cons.mp hmem with rfl | hmem
    · exact lt_of_nodeIn? hn
    · exact h.known other (.inl hmem)
  · exact h.known other (.inr hmem)

/-- The node that `add` makes takes over the hold of its parts. -/
theorem add (h : g.Counted (parts ++ loose)) (rule : Rule) :
    (g.add rule parts).2.Counted (g.nodes.length :: loose) := by
  have hlength := length_acquire parts g.nodes
  have hparts : ∀ p ∈ parts, p < g.nodes.length := fun p hp =>
    h.known p (.inl (List.mem_append_left _ hp))
  have hloose : ∀ id ∈ loose, id < g.nodes.length := fun id hid =>
    h.known id (.inl (List.mem_append_right _ hid))
  have hnone : g.outside.count g.nodes.length = 0 := by
    refine List.count_eq_zero.mpr fun hmem => ?_
    exact Nat.lt_irrefl _ (h.known _ (.inr hmem))
  have hkept := h.balanced.acquire parts fun p hp => List.mem_append_left loose hp
  constructor
  · refine .cons ?_ (by simp [hlength]) (by rwa [hlength]) (hkept.loosen ?_ ?_)
    · rw [hlength]
      exact hnone.symm
    · intro id hlt hid
      rw [hlength] at hlt
      exact List.mem_append_right _ (List.mem_of_ne_of_mem (Nat.ne_of_lt hlt) hid)
    · intro id hid
      rcases List.mem_append.mp hid with hid | hid
      · exact .inr (Nat.lt_add_left _ (List.count_pos_iff.mpr hid))
      · exact .inl (.tail _ hid)
  · have hnodes : (g.add rule parts).2.nodes.length = g.nodes.length + 1 := by
      simp [Grammar.add, hlength]
    rw [hnodes]
    rintro id (hid | hid)
    · rcases List.mem_cons.mp hid with rfl | hid
      · exact Nat.lt_succ_self _
      · exact Nat.lt_succ_of_lt (hloose id hid)
    · exact Nat.lt_succ_of_lt (h.known id (.inr hid))

/-- `keepShared` adds an owner to a node that is held. -/
theorem keepShared (h : g.Counted (id :: loose)) (name : Shared) :
    (g.keepShared name id).Counted (id :: loose) := by
  have hkept := h.balanced.acquire [id] (by simp)
  have hcount : (fun p => g.outside.count p + [id].count p)
      = fun p => (g.keepShared name id).outside.count p := by
    funext p
    simp only [outside, Grammar.keepShared, List.map_cons, List.count_append, List.count_cons,
      List.count_nil]
    omega
  rw [hcount] at hkept
  refine ⟨hkept, fun p hp => ?_⟩
  have hlength : (g.keepShared name id).nodes.length = g.nodes.length := length_acquire ..
  rw [hlength]
  rcases hp with hp | hp
  · exact h.known p (.inl hp)
  · simp only [outside, Grammar.keepShared, List.map_cons, List.mem_append, List.mem_cons] at hp
    rcases hp with hp | rfl | hp
    · exact h.known p (.inr (List.mem_append_left _ hp))
    · exact h.known p (.inl (.head _))
    · exact h.known p (.inr (List.mem_append_right _ hp))

end Counted

/-! ## Tidy grammars -/

/-- Nodes are well formed, counts are right, and no two rules have the same name. -/
structure Tidy (g : Grammar) (loose : List NodeId) : Prop where
  formed : g.Formed
  counted : g.Counted loose
  names : (g.rules.map Prod.fst).Nodup

namespace Tidy

theorem congr (h : g.Tidy loose) (hmem : ∀ id, id ∈ loose' ↔ id ∈ loose) : g.Tidy loose' :=
  ⟨h.formed, h.counted.congr hmem, h.names⟩

theorem hold (h : g.Tidy loose) (hid : g.isAlive id = true) : g.Tidy (id :: loose) :=
  ⟨h.formed, h.counted.hold hid, h.names⟩

/-- `add` keeps a grammar `Tidy`, and the new node takes over the hold of its parts. Type names have a
    slot of their own, and come in by `addTypeName`. -/
theorem add (h : g.Tidy (parts ++ loose)) (hparts : parts.map g.made? = rule.parts.map some)
    (htypeName : ∀ own name, rule ≠ .typeName own name)
    (hforward : ∀ slot, rule = .forward slot → slot < g.slots.length) :
    (g.add rule parts).2.Tidy (g.nodes.length :: loose) := by
  refine ⟨?_, h.counted.add rule, h.names⟩
  exact h.formed.cons (grown_add g rule parts) (makes_add g rule parts) rfl hparts
    (fun own name hrule => absurd hrule (htypeName own name)) hforward

/-- `addTypeName` keeps a grammar `Tidy`, and the type name takes over the hold of the rule of its
    name. -/
theorem addTypeName (h : g.Tidy (id :: loose)) {name : Rule} (hname : g.made? id = some name) :
    (g.addTypeName id name).2.Tidy (g.nodes.length :: loose) := by
  obtain ⟨hmakes, hslots⟩ := makes_addTypeName g id name
  have hslotted : g.addSlot.2.Counted ([id] ++ loose) := h.counted.of_nodes rfl rfl
  have hadded := hslotted.add (.typeName g.slots.length name)
  refine ⟨?_, hadded.of_nodes rfl rfl, h.names⟩
  refine h.formed.cons (grown_addTypeName ..) hmakes rfl (by simp [Rule.parts, hname]) ?_ (by simp)
  intro own other hrule
  obtain ⟨rfl, rfl⟩ := Rule.typeName.inj hrule
  rw [slotTarget?, hslots, List.getElem?_concat_length]
  rfl

theorem keepShared (h : g.Tidy (id :: loose)) (name : Shared)
    (hname : name = .dottedWord → g.made? id = some .dottedWord) :
    (g.keepShared name id).Tidy (id :: loose) := by
  have hlater := (grown_keepShared g name id).later
  refine ⟨?_, h.counted.keepShared name, h.names⟩
  refine h.formed.later hlater (makes_keepShared g name id) h.formed.forwards fun other hother => ?_
  rcases List.mem_cons.mp hother with heq | hother
  · obtain ⟨rfl, rfl⟩ := Prod.mk.inj heq
    exact hname rfl
  · exact h.formed.shared other hother

/-- `addSlot` keeps a grammar `Tidy`, since a slot that is not set leads nowhere. -/
theorem addSlot (h : g.Tidy loose) : g.addSlot.2.Tidy loose := by
  have hlater := (grown_addSlot g).later
  refine ⟨?_, h.counted.of_nodes rfl rfl, h.names⟩
  refine h.formed.later hlater rfl (fun f hf => ?_) h.formed.shared
  exact Nat.lt_of_lt_of_le (h.formed.forwards f hf) hlater.slots

theorem isAlive_shared (h : g.Tidy loose) {name : Shared} (hid : (name, id) ∈ g.shared) :
    g.isAlive id = true :=
  h.counted.isAlive (.inr (List.mem_append_right _ (List.mem_map_of_mem hid)))

end Tidy

/-- The pair that `lookup` finds is in the list. -/
theorem mem_of_lookup {κ ι : Type} [BEq κ] [LawfulBEq κ] {pairs : List (κ × ι)} {k : κ} {i : ι}
    (h : pairs.lookup k = some i) : (k, i) ∈ pairs := by
  obtain ⟨before, after, rfl, -⟩ := List.lookup_eq_some_iff.mp h
  exact List.mem_append_right _ (List.mem_cons_self ..)

namespace Tidy

/-- `simpleShared` keeps a grammar `Tidy`, with a hold of the rule, which is found or made. -/
theorem simpleShared (h : g.Tidy loose) (name : Shared) (rule : Rule) (hrule : rule.parts = [])
    (hname : name = .dottedWord → rule = .dottedWord)
    (htypeName : ∀ own part, rule ≠ .typeName own part) (hforward : ∀ slot, rule ≠ .forward slot) :
    (g.simpleShared name rule).2.Tidy ((g.simpleShared name rule).1 :: loose) := by
  unfold Grammar.simpleShared
  split
  next id hid => exact h.hold (h.isAlive_shared (mem_of_lookup hid))
  next =>
    have hempty : g.Tidy ([] ++ loose) := h
    have hadd := hempty.add (by simp [hrule]) htypeName fun slot heq => absurd heq (hforward slot)
    refine hadd.keepShared name fun heq => ?_
    rw [← hname heq]
    exact made?_cons (makes_add g rule [])

/-- The shared rule of dotted words is what its name says, whether it was made before or not. -/
theorem made?_dottedWord (h : g.Tidy loose) :
    (g.simpleShared .dottedWord .dottedWord).2.made? (g.simpleShared .dottedWord .dottedWord).1
      = some .dottedWord := by
  unfold Grammar.simpleShared
  split
  next id hid => exact h.formed.shared id (mem_of_lookup hid)
  next =>
    rw [made?_congr (makes_keepShared ..)]
    exact made?_cons (makes_add g .dottedWord [])

/-- `sharedRule` keeps a grammar `Tidy`, with a hold of the rule. The one of type names takes the shared
    rule of dotted words in. -/
theorem sharedRule (h : g.Tidy loose) (name : Shared) :
    (g.sharedRule name).2.Tidy ((g.sharedRule name).1 :: loose) ∧ g.Grown (g.sharedRule name).2 := by
  cases name with
  | typeName =>
      rw [Grammar.sharedRule]
      split
      next id hid => exact ⟨h.hold (h.isAlive_shared (mem_of_lookup hid)), .refl g⟩
      next =>
        have hname := h.simpleShared .dottedWord .dottedWord rfl (fun _ => rfl) (by simp) (by simp)
        have htypeName := hname.addTypeName h.made?_dottedWord
        refine ⟨htypeName.keepShared .typeName (by simp), ?_⟩
        exact ((grown_simpleShared ..).trans (grown_addTypeName ..)).trans (grown_keepShared ..)
  | _ =>
      exact ⟨h.simpleShared _ _ rfl (by simp) (by simp) (by simp), grown_simpleShared ..⟩

end Tidy

end Grammar

end Graft
