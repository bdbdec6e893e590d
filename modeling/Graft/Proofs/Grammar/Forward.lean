import Graft.Proofs.Grammar.Alive

/-!
# `Graft.Proofs.Grammar.Forward` — forwards are set once

Along a session the steps that are to set a slot are collected by `Grammar.attempts`. After any of its
steps the slot is set to what it was set to before, or else to what the step is to set it to
(`Grammar.Tidy.slotTarget?_after`). So in the whole session the first attempt decides
(`Grammar.Tidy.slotTarget?_afterAll`). All copies of a forward share its slot, and so do the rules that
contain it; what follows for a forward that is made at some point of a session is
`Grammar.forward_afterAll`.
-/

namespace Graft

namespace Grammar

variable {g g' : Grammar} {slot : Slot} {id : NodeId} {s : Step} {forward rule : Text}

/-! ## The first attempt decides -/

/-- The node that a step is to set a slot to, if it is such a step. -/
def attempt? (g : Grammar) (slot : Slot) : Step → Option NodeId
  | .define forward rule => if g.forward? forward = some slot then g.stored? rule else none
  | _ => none

/-- The nodes that a slot is to be set to in a session, in order. -/
def attempts [Regex.Engine] (g : Grammar) (slot : Slot) : List Step → List NodeId
  | [] => []
  | s :: others => (g.attempt? slot s).toList ++ (g.after s).attempts slot others

/-- What counts as an `attempt?` to set a slot: a definition through one of its clones, with a rule that
    is stored. -/
theorem attempt?_eq_some_iff : g.attempt? slot s = some id ↔
    ∃ forward rule, s = .define forward rule ∧ g.forward? forward = some slot ∧
      g.stored? rule = some id := by
  constructor
  · intro h
    unfold attempt? at h
    split at h
    next forward rule =>
      obtain ⟨hslot, hid⟩ := Option.ite_none_right_eq_some.mp h
      exact ⟨forward, rule, rfl, hslot, hid⟩
    · cases h
  · rintro ⟨forward, rule, rfl, hslot, hid⟩
    rw [attempt?, if_pos hslot, hid]

/-- A `Move` that makes no attempt at a slot leaves its target alone. One case for each constructor. -/
theorem Tidy.slotTarget?_move [Regex.Engine] (h : g.Tidy []) (hmove : g.Move s g')
    (hs : g.attempt? slot s = none) (hslot : slot < g.slots.length) :
    g'.slotTarget? slot = g.slotTarget? slot := by
  cases hmove with
  | newForward name => exact slotTarget?_of_slots (List.prefix_append ..) hslot
  | cloneForward _ => rfl
  | storeRule hrun =>
      refine slotTarget?_of_slots ?_ hslot
      rw [slots_store]
      exact (builds_build _ h hrun).grown.slots
  | dropRule name => exact slotTarget?_of_slots (slots_drop g name ▸ List.prefix_rfl) hslot
  | @define forward rule other id hother hid _ =>
      have hne : other ≠ slot := by
        rintro rfl
        have hattempt := attempt?_eq_some_iff.mpr ⟨forward, rule, rfl, hother, hid⟩
        rw [hs] at hattempt
        cases hattempt
      rw [slotTarget?, setSlot, List.getElem?_set_ne hne]
      rfl
  | stay => rfl

/-- One step. The first attempt wins: `slotTarget?` keeps the target that a slot has, and takes the one
    that the step attempts where there is none. -/
theorem Tidy.slotTarget?_after [Regex.Engine] (h : g.Tidy []) (hslot : slot < g.slots.length)
    (s : Step) : (g.after s).slotTarget? slot = (g.slotTarget? slot).or (g.attempt? slot s) := by
  cases hattempt : g.attempt? slot s with
  | none => rw [h.slotTarget?_move (move_after g s) hattempt hslot, Option.or_none]
  | some id =>
      obtain ⟨forward, rule, rfl, hforward, hid⟩ := attempt?_eq_some_iff.mp hattempt
      cases hset : g.slotTarget? slot with
      | none =>
          rw [after, step_define hforward hid hset]
          exact slotTarget?_setSlot hslot id
      | some first =>
          rw [after, step_define_again hforward hid hset]
          exact hset

/-- The run of `Tidy.slotTarget?_after`: of all `attempts` at an unset slot the first one counts. -/
theorem Tidy.slotTarget?_afterAll [Regex.Engine] (h : g.Tidy []) (hslot : slot < g.slots.length)
    (steps : List Step) :
    (g.afterAll steps).slotTarget? slot
      = (g.slotTarget? slot).or (g.attempts slot steps).head? := by
  induction steps generalizing g with
  | nil => exact Option.or_none.symm
  | cons s others ih =>
      obtain ⟨hafter, hlater⟩ := h.move (move_after g s)
      have hall := ih hafter (Nat.lt_of_lt_of_le hslot hlater.slots)
      rw [h.slotTarget?_after hslot, Option.or_assoc] at hall
      rw [attempts, List.head?_append]
      cases hattempt : g.attempt? slot s <;> rw [hattempt] at hall <;> exact hall

/-- `attempts` name nodes that were stored when they were made, so `made?` still knows their rules
    afterwards. -/
theorem Tidy.made?_of_mem_attempts [Regex.Engine] (h : g.Tidy []) {steps : List Step}
    (hid : id ∈ g.attempts slot steps) : ∃ r, (g.afterAll steps).made? id = some r := by
  induction steps generalizing g with
  | nil => cases hid
  | cons s others ih =>
      obtain ⟨hafter, hlater⟩ := h.move (move_after g s)
      rcases List.mem_append.mp hid with hattempt | hid
      · obtain ⟨_, _, _, _, hstored⟩ := attempt?_eq_some_iff.mp (Option.mem_toList.mp hattempt)
        obtain ⟨r, hr⟩ := exists_rule? (h.isAlive_of_reachable (.stored hstored))
        have hmakes := hlater.makes.trans (hafter.afterAll others).2.makes
        exact ⟨r, made?_of_suffix hmakes (rule?_eq_some_iff.mp hr).2⟩
      · exact ih hafter hid

/-! ## Copies -/

/-- One step takes no slot over to a new name, but for `cloneForward`. -/
theorem Tidy.forward?_after [Regex.Engine] (h : g.Tidy []) (hslot : slot < g.slots.length)
    {name : Text} (hname : (g.after s).forward? name = some slot) :
    g.forward? name = some slot ∨
      ∃ original, s = .cloneForward original name ∧ g.forward? original = some slot := by
  have hmove := move_after g s
  generalize g.after s = g' at hmove hname
  cases hmove with
  | newForward new =>
      have hlookup : List.lookup name ((new, g.slots.length) :: g.forwards) = some slot := hname
      rw [List.lookup_cons] at hlookup
      split at hlookup
      · exact absurd (Option.some.inj hlookup) (Nat.ne_of_gt hslot)
      · exact .inl hlookup
  | @cloneForward original copy _ horiginal =>
      have hlookup : List.lookup name ((copy, _) :: g.forwards) = some slot := hname
      rw [List.lookup_cons] at hlookup
      split at hlookup
      next heq =>
        obtain rfl := eq_of_beq heq
        obtain rfl := Option.some.inj hlookup
        exact .inr ⟨original, rfl, horiginal⟩
      · exact .inl hlookup
  | storeRule hrun =>
      rw [forward?, forwards_store, (builds_build _ h hrun).grown.forwards] at hname
      exact .inl hname
  | dropRule _ =>
      rw [forward?, forwards_drop] at hname
      exact .inl hname
  | define _ _ _ => exact .inl hname
  | stay => exact .inl hname

/-- A clone goes to the slot of its original. -/
theorem forward?_after_cloneForward [Regex.Engine] {original : Text}
    (h : g.forward? original = some slot) (copy : Text) :
    (g.after (.cloneForward original copy)).forward? copy = some slot := by
  rw [after, step, cloneForward?, h]
  exact List.lookup_cons_self

/-- The slot of `newForward` is the next free one, and no other name leads to it. -/
theorem Tidy.forward?_after_newForward [Regex.Engine] (h : g.Tidy []) (new name : Text) :
    (g.after (.newForward new)).forward? name = some g.slots.length ↔ name = new := by
  show List.lookup name ((new, g.slots.length) :: g.forwards) = some g.slots.length ↔ name = new
  rw [List.lookup_cons]
  split
  next heq => simpa using eq_of_beq heq
  next hne =>
    refine iff_of_false (fun hlookup => ?_) (by simpa using hne)
    exact Nat.lt_irrefl _ (h.formed.forwards (name, g.slots.length) (mem_of_lookup hlookup))

/-! ## What a forward does -/

/-- The flag that a session shows for a forward is `isDefined` of its slot. -/
theorem step_isDefined [Regex.Engine] {name : Text} (h : g.forward? name = some slot) :
    g.step (.isDefined name) = pure (g, .flag (g.isDefined slot)) := by
  rw [step, withForward, h]

/-- Reading through a slot that was never set is a defect of its own. -/
theorem recognizer_forward_of_unset (h : g.slotTarget? slot = none) (t : Text) (pos : Nat) :
    g.recognizer (.forward slot) t pos = .raise .undefinedForward := by
  have htarget : g.target slot = .undefined := by rw [target, h]
  rw [recognizer, Rule.parse, Rule.recognizer, Rule.depthBound, Rule.through, htarget]

/-- Reading through a slot whose rule is gone is another defect than through one that was never set. -/
theorem recognizer_forward_of_gone (h : g.slotTarget? slot = some id)
    (hgone : g.isAlive id = false) (t : Text) (pos : Nat) :
    g.recognizer (.forward slot) t pos = .raise .droppedForward := by
  rw [recognizer, Rule.parse, Rule.recognizer, Rule.depthBound, Rule.through,
    target_of_gone h hgone]

/-- A forward that was set to a node, made for a rule. -/
structure SetTo [Regex.Engine] (g : Grammar) (slot : Slot) (id : NodeId) (r : Rule) : Prop where
  target : g.slotTarget? slot = some id
  made : g.made? id = some r
  /-- The slot is known to be set, in names and in rules, and all copies say so. -/
  isDefined : g.isDefined slot = true ∧ ∀ name, g.forward? name = some slot →
    g.step (.isDefined name) = pure (g, .flag true)
  /-- While the node is there, the forward reads what the rule reads. -/
  read : g.isAlive id = true → ∀ t pos,
    (g.recognizer (.forward slot) t pos).result = (g.recognizer r t pos).result
  /-- When the node is gone, reading is a defect. -/
  dropped : g.isAlive id = false → ∀ t pos,
    g.recognizer (.forward slot) t pos = .raise .droppedForward
  /-- To set any copy is a defect that changes nothing, be the node there or not. -/
  define : ∀ name rule other, g.forward? name = some slot → g.stored? rule = some other →
    g.step (.define name rule) = .raise .redefinedForward ∧ g.after (.define name rule) = g

/-- A forward that was not set. -/
structure Unset [Regex.Engine] (g : Grammar) (slot : Slot) : Prop where
  target : g.slotTarget? slot = none
  /-- The slot is known not to be set, and all copies say so. -/
  isDefined : g.isDefined slot = false ∧ ∀ name, g.forward? name = some slot →
    g.step (.isDefined name) = pure (g, .flag false)
  /-- Reading is a defect. -/
  read : ∀ t pos, g.recognizer (.forward slot) t pos = .raise .undefinedForward
  /-- Any copy can be set to any rule that is stored. -/
  define : ∀ name rule id, g.forward? name = some slot → g.stored? rule = some id →
    g.step (.define name rule) = pure (g.setSlot slot id, .done) ∧
      ∃ r, g.rule? id = some r ∧ (g.setSlot slot id).target slot = .rule r

/-- A slot with a target has all that `SetTo` says. -/
theorem setTo_of_slotTarget? [Regex.Engine] {r : Rule} (htarget : g.slotTarget? slot = some id)
    (hmade : g.made? id = some r) : g.SetTo slot id r where
  target := htarget
  made := hmade
  isDefined := by
    have hset : g.isDefined slot = true := by rw [Grammar.isDefined, htarget]; rfl
    exact ⟨hset, fun _ hname => by rw [step_isDefined hname, hset]⟩
  read halive t pos :=
    result_recognizer_forward (target_of_rule? htarget (rule?_eq_some_iff.mpr ⟨halive, hmade⟩)) t pos
  dropped := recognizer_forward_of_gone htarget
  define _ _ _ hname hid := by
    have hstep := step_define_again hname hid htarget
    refine ⟨hstep, ?_⟩
    rw [after, hstep]
    rfl

/-- In a `Tidy` grammar a slot without a target has all that `Unset` says. -/
theorem Tidy.unset_of_slotTarget? [Regex.Engine] (h : g.Tidy []) (hslot : slot < g.slots.length)
    (hunset : g.slotTarget? slot = none) : g.Unset slot where
  target := hunset
  isDefined := by
    have hnone : g.isDefined slot = false := by rw [Grammar.isDefined, hunset]; rfl
    exact ⟨hnone, fun _ hname => by rw [step_isDefined hname, hnone]⟩
  read := recognizer_forward_of_unset hunset
  define _ _ _ hname hid := by
    obtain ⟨r, hr⟩ := exists_rule? (h.isAlive_of_reachable (.stored hid))
    exact ⟨step_define hname hid hunset, r, hr, target_of_rule? (slotTarget?_setSlot hslot _) hr⟩

/-- **Forwards.** A forward is `made` at some point of a session that starts `empty`, and the session goes
    on in any way.

    - At first the forward has its slot to itself. A name gets the slot by `cloneForward` from one that
      has it, and in no other way.
    - While there are no `attempts` at the slot, it is `Unset`.
    - Once there are, it is `SetTo` the rule of the first of them, whatever happens later.
    - A rule reads forwards inside of it just as they are read on their own. -/
theorem forward_afterAll [Regex.Engine] (before later : List Step) (new : Text) :
    let made := (empty.afterAll before).after (.newForward new)
    let slot := (empty.afterAll before).slots.length
    let g := made.afterAll later
    (∀ name, made.forward? name = some slot ↔ name = new) ∧
    (∀ s name, (g.after s).forward? name = some slot → g.forward? name = some slot ∨
      ∃ original, s = .cloneForward original name ∧ g.forward? original = some slot) ∧
    (∀ original copy, g.forward? original = some slot →
      (g.after (.cloneForward original copy)).forward? copy = some slot) ∧
    (match (made.attempts slot later).head? with
      | none => g.Unset slot
      | some id => ∃ r, ∀ more, (g.afterAll more).SetTo slot id r) ∧
    ∀ r t pos, (g.recognizer r t pos).result
      = (r.recognizer (fun slot => g.recognizer (.forward slot)) t pos).result := by
  intro made slot g
  have hbefore := tidy_afterAll before
  have hmade : made.Tidy [] := (hbefore.move (move_after _ _)).1
  obtain ⟨h, hlater⟩ : g.Tidy [] ∧ made.Later g := hmade.afterAll later
  have hnew : slot < made.slots.length := by
    simp [made, slot, after, step, newForward, addSlot]
  have hslot : slot < g.slots.length := Nat.lt_of_lt_of_le hnew hlater.slots
  have hunset : made.slotTarget? slot = none := by
    simp [made, slot, after, step, newForward, addSlot, slotTarget?]
  have hfirst : g.slotTarget? slot = (made.attempts slot later).head? := by
    rw [hmade.slotTarget?_afterAll hnew, hunset, Option.none_or]
  refine ⟨hbefore.forward?_after_newForward new, fun _ _ => h.forward?_after hslot,
    fun _ copy horiginal => forward?_after_cloneForward horiginal copy, ?_, ?_⟩
  · cases hattempts : (made.attempts slot later).head? with
    | none => exact h.unset_of_slotTarget? hslot (hfirst.trans hattempts)
    | some id =>
        have htarget := hfirst.trans hattempts
        obtain ⟨r, hr⟩ := hmade.made?_of_mem_attempts (List.mem_of_mem_head? hattempts)
        refine ⟨r, fun more => ?_⟩
        have hmore := (h.afterAll more).2
        exact setTo_of_slotTarget? (hmore.target slot id htarget) (made?_of_suffix hmore.makes hr)
  · exact Rule.result_parse fun _ _ => lt_of_target

/-- A forward stays set after its copy was set and the rule was dropped. -/
example :
    let g := empty.afterAll [.newForward ['f'], .cloneForward ['f'] ['c'],
      .storeRule ['r'] (.optional (.ref ['f'])), .define ['c'] ['r'], .dropRule ['r']]
    g.forward? ['f'] = some 0 ∧ g.isDefined 0 = true ∧ g.isAlive 1 = false := by
  exact ⟨rfl, rfl, rfl⟩

end Grammar

end Graft
