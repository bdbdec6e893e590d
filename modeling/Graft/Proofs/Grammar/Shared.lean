import Graft.Grammar
import Graft.Proofs.TypeName.Read

/-!
# `Graft.Proofs.Grammar.Shared` — the rules that a grammar shares

Asking a grammar for a shared rule makes it grow: what it held before it still holds afterwards
(`Grammar.extends_sharedRule`). So the shared rule of type names, once it is wired to itself, stays so through all
requests (`typeNameWired_sharing`). It reads whatever is written as a type name
(`exists_typeName_of_layout`).
-/

namespace Graft

namespace Grammar

variable {g g' g'' : Grammar}

/-! ## Growing -/

/-- What a grammar holds another one holds as well: rules that are still there, and what slots were set
    to. -/
structure Extends (g g' : Grammar) : Prop where
  rule : ∀ id r, g.rule? id = some r → g'.rule? id = some r
  slot : ∀ slot id, g.slotTarget? slot = some id → g'.slotTarget? slot = some id

theorem Extends.refl (g : Grammar) : g.Extends g :=
  ⟨fun _ _ h => h, fun _ _ h => h⟩

theorem Extends.trans (h : g.Extends g') (h' : g'.Extends g'') : g.Extends g'' :=
  ⟨fun id r hr => h'.rule id r (h.rule id r hr), fun slot id hs => h'.slot slot id (h.slot slot id hs)⟩

theorem Extends.target {slot : Slot} {r : Rule} (h : g.Extends g')
    (hr : g.target slot = .rule r) : g'.target slot = .rule r := by
  unfold Grammar.target at hr ⊢
  split at hr
  · cases hr
  next id hid =>
    split at hr
    · cases hr
    next r' hr' =>
      obtain rfl := Rule.Target.rule.inj hr
      rw [h.slot slot id hid]
      dsimp only
      rw [h.rule id r' hr']

theorem length_acquire (ids : List NodeId) (nodes : List Node) :
    (acquire ids nodes).length = nodes.length := by
  induction nodes with
  | nil => rfl
  | cons n older ih => simp [acquire, ih]

theorem nodeIn?_acquire (ids : List NodeId) (nodes : List Node) (id : NodeId) :
    nodeIn? (acquire ids nodes) id
      = (nodeIn? nodes id).map fun n => { n with owners := n.owners + ids.count id } := by
  induction nodes with
  | nil => rfl
  | cons n older ih =>
      rw [acquire, nodeIn?, nodeIn?, length_acquire, ih]
      split
      next h => rw [h]; rfl
      · rfl

theorem lt_of_nodeIn? {nodes : List Node} {id : NodeId} {n : Node} (h : nodeIn? nodes id = some n) :
    id < nodes.length := by
  induction nodes with
  | nil => cases h
  | cons m older ih =>
      rw [nodeIn?] at h
      split at h
      next hid => simp [hid]
      · rw [List.length_cons]
        exact Nat.lt_succ_of_lt (ih h)

/-- `acquire` counts owners and touches no rule. -/
theorem rule?_acquire (g : Grammar) (ids : List NodeId) (id : NodeId) :
    { g with nodes := acquire ids g.nodes : Grammar }.rule? id = g.rule? id := by
  simp only [rule?, node?, nodeIn?_acquire]
  cases nodeIn? g.nodes id with
  | none => rfl
  | some n => cases h : n.alive <;> simp [Option.filter, h]

theorem lt_of_rule? {id : NodeId} {r : Rule} (h : g.rule? id = some r) : id < g.nodes.length := by
  cases hn : nodeIn? g.nodes id with
  | none => simp [rule?, node?, hn] at h
  | some n => exact lt_of_nodeIn? hn

theorem extends_add (g : Grammar) (rule : Rule) (parts : List NodeId) :
    g.Extends (g.add rule parts).2 := by
  refine ⟨fun id r hr => ?_, fun _ _ h => h⟩
  -- the node has another number than the new one
  have hne : ¬ id = (acquire parts g.nodes).length := by
    rw [length_acquire]
    exact Nat.ne_of_lt (lt_of_rule? hr)
  have hold : (g.add rule parts).2.rule? id
      = { g with nodes := acquire parts g.nodes : Grammar }.rule? id := by
    rw [rule?, rule?, node?, node?, add, nodeIn?, if_neg hne]
  rw [hold, rule?_acquire, hr]

theorem rule?_add (g : Grammar) (rule : Rule) (parts : List NodeId) :
    (g.add rule parts).2.rule? (g.add rule parts).1 = some rule := by
  have hnew : (g.add rule parts).1 = (acquire parts g.nodes).length := (length_acquire ..).symm
  rw [hnew, rule?, node?, add, nodeIn?, if_pos rfl]
  rfl

theorem lt_of_slotTarget? {slot : Slot} {id : NodeId} (h : g.slotTarget? slot = some id) :
    slot < g.slots.length := by
  rcases Nat.lt_or_ge slot g.slots.length with hlt | hge
  · exact hlt
  · rw [slotTarget?, List.getElem?_eq_none hge] at h
    cases h

theorem extends_addSlot (g : Grammar) : g.Extends g.addSlot.2 := by
  refine ⟨fun _ _ h => h, fun slot id h => ?_⟩
  rw [slotTarget?, addSlot, List.getElem?_append_left (lt_of_slotTarget? h)]
  exact h

theorem extends_setSlot {slot : Slot} (h : g.slotTarget? slot = none) (id : NodeId) :
    g.Extends (g.setSlot slot id) := by
  refine ⟨fun _ _ h => h, fun other target hother => ?_⟩
  have hne : slot ≠ other := by
    rintro rfl
    rw [h] at hother
    cases hother
  rw [slotTarget?, setSlot, List.getElem?_set_ne hne]
  exact hother

theorem slotTarget?_setSlot {slot : Slot} (h : slot < g.slots.length) (id : NodeId) :
    (g.setSlot slot id).slotTarget? slot = some id := by
  rw [slotTarget?, setSlot, List.getElem?_set_self h]
  rfl

theorem extends_keepShared (g : Grammar) (name : Shared) (id : NodeId) :
    g.Extends (g.keepShared name id) :=
  ⟨fun _ _ h => (rule?_acquire g [id] _).trans h, fun _ _ h => h⟩

theorem extends_simpleShared (g : Grammar) (name : Shared) (rule : Rule) :
    g.Extends (g.simpleShared name rule).2 := by
  unfold simpleShared
  split
  · exact .refl g
  · exact (extends_add g rule []).trans (extends_keepShared _ name _)

/-! ## Type names -/

/-- A node of a type name whose arguments come from a slot that leads back to the node. -/
def WiredTypeName (g : Grammar) (id : NodeId) : Prop :=
  ∃ slot, g.rule? id = some (.typeName slot .dottedWord) ∧
    g.target slot = .rule (.typeName slot .dottedWord)

theorem WiredTypeName.extends {id : NodeId} (h : g.WiredTypeName id) (hext : g.Extends g') :
    g'.WiredTypeName id := by
  obtain ⟨slot, hrule, htarget⟩ := h
  exact ⟨slot, hext.rule _ _ hrule, hext.target htarget⟩

/-- What `addTypeName` amounts to: a slot, a node, and the slot set to the node. The other lemmas about it
    read it by this equation. -/
theorem addTypeName_eq (g : Grammar) (part : NodeId) (name : Rule) :
    ∃ g', g.Extends g' ∧ g'.rule? g.nodes.length = some (.typeName g.slots.length name) ∧
      g'.slots = g.slots ++ [none] ∧
      g.addTypeName part name = (g.nodes.length, g'.setSlot g.slots.length g.nodes.length) := by
  have hrule := rule?_add g.addSlot.2 (.typeName g.slots.length name) [part]
  exact ⟨(g.addSlot.2.add (.typeName g.slots.length name) [part]).2,
    (extends_addSlot g).trans (extends_add _ _ _), hrule, rfl, rfl⟩

theorem extends_addTypeName (g : Grammar) (part : NodeId) (name : Rule) :
    g.Extends (g.addTypeName part name).2 := by
  obtain ⟨g', hext, -, hslots, heq⟩ := addTypeName_eq g part name
  have hunset : g'.slotTarget? g.slots.length = none := by simp [slotTarget?, hslots]
  rw [heq]
  exact hext.trans (extends_setSlot hunset _)

/-- The type name that `addTypeName` makes has its own slot set to itself. -/
theorem wiredTypeName_addTypeName (g : Grammar) (part : NodeId) :
    (g.addTypeName part .dottedWord).2.WiredTypeName (g.addTypeName part .dottedWord).1 := by
  obtain ⟨g', -, hrule, hslots, heq⟩ := addTypeName_eq g part .dottedWord
  have hslot : (g'.setSlot g.slots.length g.nodes.length).slotTarget? g.slots.length
      = some g.nodes.length := slotTarget?_setSlot (by simp [hslots]) _
  have hrule' : (g'.setSlot g.slots.length g.nodes.length).rule? g.nodes.length
      = some (.typeName g.slots.length .dottedWord) := hrule
  rw [heq]
  refine ⟨g.slots.length, hrule', ?_⟩
  rw [target, hslot]
  dsimp only
  rw [hrule']

/-! ## Asking for shared rules -/

/-- A grammar that was asked for some of its shared rules, in this order. -/
def sharing (names : List Shared) : Grammar :=
  names.foldl (fun g name => (g.sharedRule name).2) empty

/-- Whether the shared rule of type names, if it has been made, is wired to itself. -/
def TypeNameWired (g : Grammar) : Prop :=
  ∀ id, g.shared.lookup .typeName = some id → g.WiredTypeName id

/-- The shared rule of type names is a `WiredTypeName`, whether it is made on demand or was there. -/
theorem wiredTypeName_sharedRule (h : g.TypeNameWired) :
    (g.sharedRule .typeName).2.WiredTypeName (g.sharedRule .typeName).1 := by
  rw [sharedRule]
  split
  next id hid => exact h id hid
  · exact (wiredTypeName_addTypeName _ _).extends (extends_keepShared _ _ _)

/-- A grammar `Extends` to what it is when a shared rule has been asked for: no rule is lost. -/
theorem extends_sharedRule (g : Grammar) (name : Shared) : g.Extends (g.sharedRule name).2 := by
  cases name with
  | typeName =>
      rw [sharedRule]
      split
      · exact .refl g
      · exact ((extends_simpleShared g _ _).trans (extends_addTypeName _ _ _)).trans
          (extends_keepShared _ _ _)
  | _ => exact extends_simpleShared g _ _

theorem lookup_simpleShared (g : Grammar) {name other : Shared} (rule : Rule)
    (hne : (other == name) = false) :
    (g.simpleShared name rule).2.shared.lookup other = g.shared.lookup other := by
  unfold simpleShared
  split
  · rfl
  · show List.lookup other ((name, _) :: g.shared) = _
    rw [List.lookup_cons, hne]

theorem lookup_sharedRule_typeName (g : Grammar) :
    (g.sharedRule .typeName).2.shared.lookup .typeName = some (g.sharedRule .typeName).1 := by
  rw [sharedRule]
  split
  next id hid => exact hid
  · exact List.lookup_cons_self

/-- `TypeNameWired` is kept, whichever shared rule is asked for. -/
theorem typeNameWired_sharedRule (h : g.TypeNameWired) (name : Shared) :
    (g.sharedRule name).2.TypeNameWired := by
  cases name with
  | typeName =>
      intro id hid
      rw [lookup_sharedRule_typeName] at hid
      obtain rfl := Option.some.inj hid
      exact wiredTypeName_sharedRule h
  | _ =>
      intro id hid
      have hold := (lookup_simpleShared g _ rfl).symm.trans hid
      exact (h id hold).extends (extends_sharedRule g _)

/-- What `sharing` makes keeps the shared rule of type names wired, in whatever order the rules are asked
    for. -/
theorem typeNameWired_sharing (names : List Shared) : (sharing names).TypeNameWired := by
  have hfold : ∀ g : Grammar, g.TypeNameWired →
      (names.foldl (fun g name => (g.sharedRule name).2) g).TypeNameWired := by
    induction names with
    | nil => exact fun _ h => h
    | cons name others ih => exact fun g h => ih _ (typeNameWired_sharedRule h name)
  exact hfold empty (by simp [TypeNameWired, empty])

/-! ## Reading type names -/

/-- A `WiredTypeName` reads every `Layout` of a tree, since its own `target` is a grammar that
    `TypeTree.exists_found_of_layout` can be applied to. -/
theorem WiredTypeName.exists_found {id : NodeId} (hwired : g.WiredTypeName id) {tree : TypeTree}
    {s more t : Text} {pos : Nat} (hs : tree.Layout s) (h : t.from? pos = some (s ++ more))
    (hmore : tree.isPlain = true → more.ClosesArgument) :
    ∃ r e, g.rule? id = some r ∧ (g.recognizer r t pos).result = .ok (some e) ∧
      tree.Found t pos s e := by
  obtain ⟨slot, hrule, htarget⟩ := hwired
  have hslots : 1 ≤ g.slots.length := by
    cases hset : g.slotTarget? slot with
    | none =>
        rw [target, hset] at htarget
        cases htarget
    | some id => exact Nat.lt_of_le_of_lt (Nat.zero_le slot) (lt_of_slotTarget? hset)
  have hdepth : s.size < Rule.depthBound g.slots.length (t.ahead pos) := by
    have hle := Nat.mul_le_mul_right (Text.size (s ++ more) + 2) hslots
    rw [Rule.depthBound, Text.ahead_of_from? h]
    rw [Text.size_append] at hle ⊢
    omega
  obtain ⟨e, he, hfound⟩ := TypeTree.exists_found_of_layout htarget hs _ pos more hdepth h hmore
  refine ⟨_, e, hrule, ?_, hfound⟩
  rw [recognizer, Rule.parse, Rule.recognizer, Rule.recognizer]
  exact he

/-- **Type names are read back.** Whatever shared rules a grammar was asked for before, its shared
    `typeName` reads every `Layout` of every tree: with any blanks before names, brackets and commas, with
    or without a comma behind the last argument, and followed by anything if the tree has arguments, or by
    the end of the text if it `isPlain`. What is read is the very tree; it takes up what was written, and
    its content is that without the blanks before it. -/
theorem exists_typeName_of_layout (names : List Shared) {tree : TypeTree} {s more t : Text} {pos : Nat}
    (hs : tree.Layout s) (h : t.from? pos = some (s ++ more))
    (hmore : tree.isPlain = true → more = []) :
    ∃ id g r e, (sharing names).sharedRule .typeName = (id, g) ∧ g.rule? id = some r ∧
      (g.recognizer r t pos).result = .ok (some e) ∧ e.typeTree? t = some tree ∧
      e.span = ⟨pos, pos + s.size⟩ ∧
      e.content? t = some (s.dropWhile Recognizer.isSkipped) := by
  have hwired := wiredTypeName_sharedRule (typeNameWired_sharing names)
  have hcloses : tree.isPlain = true → more.ClosesArgument := by
    intro hplain
    rw [hmore hplain]
    exact Text.closesArgument_nil
  obtain ⟨r, e, hrule, he, hfound⟩ := hwired.exists_found hs h hcloses
  exact ⟨_, _, r, e, rfl, hrule, he, hfound.tree_eq, hfound.span_eq, hfound.content?_eq h⟩

/-- A generic type name with a dotted argument and one that is generic itself, where a comma stands
    behind the only argument. -/
def nestedTree : TypeTree :=
  .generic ['M'] [.plain ['a', '.', 'B'], .generic ['L'] [.plain ['x']] true] false

/-- One way to write it. -/
def nestedText : Text :=
  [' ', 'M', ' ', '<', 'a', '.', 'B', ',', '\t', 'L', '<', 'x', ' ', ',', '\n', '>', '>']

/-- The text of the case below is a `Layout` of its tree. -/
theorem layout_nestedTree : nestedTree.Layout nestedText := by
  have hidentifier (c : Char) (hc : Token.wordStart.contains c = true) :
      Token.IsIdentifier [c] := ⟨c, [], rfl, hc, by simp⟩
  have hname (c : Char) (hc : Token.wordStart.contains c = true) : Token.IsDottedName [c] :=
    ⟨[c], [], hidentifier c hc, by simp, rfl⟩
  have hdotted : Token.IsDottedName ['a', '.', 'B'] :=
    ⟨['a'], [['B']], hidentifier 'a' rfl, by simpa using hidentifier 'B' rfl, rfl⟩
  have hnone : Text.Skipped [] := by simp [Text.Skipped]
  have hblank (c : Char) (hc : Recognizer.isSkipped c = true) : Text.Skipped [c] := by
    simpa [Text.Skipped] using hc
  have hx : TypeTree.Layout (.plain ['x']) ['x'] := .plain hnone (hname 'x' rfl)
  have hlist : TypeTree.Layout (.generic ['L'] [.plain ['x']] true)
      ['\t', 'L', '<', 'x', ' ', ',', '\n', '>'] :=
    .generic (hblank '\t' rfl) (hname 'L' rfl) hnone (.trailing hx (hblank ' ' rfl) (hblank '\n' rfl))
  have hfirst : TypeTree.Layout (.plain ['a', '.', 'B']) ['a', '.', 'B'] := .plain hnone hdotted
  exact .generic (hblank ' ' rfl) (hname 'M' rfl) (hblank ' ' rfl) (.next hfirst hnone (.last hlist hnone))

/-- `exists_typeName_of_layout` for arguments with arguments of their own, behind a character of two
    bytes. -/
theorem exists_typeName_of_layout_nested : nestedTree.Layout nestedText ∧
    Text.from? ('é' :: nestedText ++ ['y']) 2 = some (nestedText ++ ['y']) ∧
    ∃ id g r e, (sharing [.word]).sharedRule .typeName = (id, g) ∧ g.rule? id = some r ∧
      (g.recognizer r ('é' :: nestedText ++ ['y']) 2).result = .ok (some e) ∧
      e.typeTree? ('é' :: nestedText ++ ['y']) = some nestedTree ∧
      e.span = ⟨2, 2 + nestedText.size⟩ ∧
      e.content? ('é' :: nestedText ++ ['y']) = some (nestedText.dropWhile Recognizer.isSkipped) := by
  have hrest : Text.from? ('é' :: nestedText ++ ['y']) 2 = some (nestedText ++ ['y']) := rfl
  refine ⟨layout_nestedTree, hrest, ?_⟩
  apply exists_typeName_of_layout [.word] layout_nestedTree hrest
  intro hplain
  cases hplain

end Grammar

end Graft
