import Graft.Proofs.Grammar.Shared

/-!
# `Graft.Proofs.Grammar.Ownership` — counted owners and who keeps a node

A list of nodes is *balanced* when the count of every node is right: it is as many as keep the node
from outside, together with the parts of nodes that are there, and a node is there as long as it has an
owner (`Grammar.Balanced`). New owners and lost owners leave a list balanced
(`Grammar.Balanced.acquire`, `Grammar.Balanced.settle`). In a balanced list a node is there just when
something keeps it (`Grammar.Balanced.alive_iff`).

Nodes of which a caller has a hold without being counted as an owner are called *loose*. A new node is
loose until it is stored or becomes a part.
-/

namespace Graft

/-- What a node is made of: its rule and its parts. Neither of them ever changes. -/
def Node.make (n : Node) : Rule × List NodeId :=
  (n.rule, n.parts)

/-- How many times a node keeps another one. A node that is gone keeps none. -/
def Node.share (n : Node) (id : NodeId) : Nat :=
  if n.alive then n.parts.count id else 0

theorem Node.share_pos {n : Node} {id : NodeId} :
    0 < n.share id ↔ n.alive = true ∧ id ∈ n.parts := by
  unfold Node.share
  split
  next h => simp [h, List.count_pos_iff]
  next h => simp [h]

namespace Grammar

variable {nodes older : List Node} {n : Node} {id : NodeId} {loose loose' lost ids : List NodeId}
  {kept : NodeId → Nat}

/-! ## Nodes by number -/

/-- `nodeIn?` counts from the end of the list, where the oldest node is. -/
theorem nodeIn?_eq (nodes : List Node) (id : NodeId) : nodeIn? nodes id = nodes.reverse[id]? := by
  induction nodes with
  | nil => rfl
  | cons n older ih =>
      rw [nodeIn?, List.reverse_cons, ih]
      split
      next h => rw [h, ← List.length_reverse, List.getElem?_concat_length]
      next h =>
        rcases Nat.lt_or_ge id older.length with hlt | hge
        · rw [List.getElem?_append_left (by rwa [List.length_reverse])]
        · have hpast : older.length + 1 ≤ id := Nat.lt_of_le_of_ne hge (Ne.symm h)
          rw [List.getElem?_eq_none (by simpa using hge), List.getElem?_eq_none (by simpa using hpast)]

theorem exists_nodeIn? (h : id < nodes.length) : ∃ n, nodeIn? nodes id = some n := by
  rw [← List.length_reverse] at h
  exact ⟨_, (nodeIn?_eq nodes id).trans (List.getElem?_eq_getElem h)⟩

theorem mem_of_nodeIn? (h : nodeIn? nodes id = some n) : n ∈ nodes := by
  rw [nodeIn?_eq] at h
  exact List.mem_reverse.mp (List.mem_of_getElem? h)

theorem exists_nodeIn?_of_mem (h : n ∈ nodes) : ∃ id, nodeIn? nodes id = some n := by
  obtain ⟨id, hid⟩ := List.getElem?_of_mem (List.mem_reverse.mpr h)
  exact ⟨id, (nodeIn?_eq nodes id).trans hid⟩

theorem map_make_acquire (ids : List NodeId) (nodes : List Node) :
    (acquire ids nodes).map Node.make = nodes.map Node.make := by
  induction nodes with
  | nil => rfl
  | cons n older ih => simp [acquire, Node.make, ih]

theorem map_make_settle (lost : List NodeId) (nodes : List Node) :
    (settle lost nodes).map Node.make = nodes.map Node.make := by
  induction nodes generalizing lost with
  | nil => rfl
  | cons n older ih =>
      rw [settle]
      split <;> simp [Node.make, ih]

theorem length_settle (lost : List NodeId) (nodes : List Node) :
    (settle lost nodes).length = nodes.length := by
  simpa using congrArg List.length (map_make_settle lost nodes)

/-! ## Counts that are right -/

/-- Every node has as many owners as keep it: those from outside, as many as `kept` says, and the newer
    nodes that are there and have it as a part. A node is there just when it has an owner or is loose.
    The parts of a node are older than the node. -/
inductive Balanced (loose : List NodeId) : (NodeId → Nat) → List Node → Prop
  | nil {kept : NodeId → Nat} : Balanced loose kept []
  | cons {kept : NodeId → Nat} {n : Node} {older : List Node}
      (owners : n.owners = kept older.length)
      (alive : n.alive = true ↔ 0 < n.owners ∨ older.length ∈ loose)
      (parts : ∀ p ∈ n.parts, p < older.length)
      (rest : Balanced loose (fun id => kept id + n.share id) older) :
      Balanced loose kept (n :: older)

namespace Balanced

/-- `Balanced` lets go of a loose node once it has an owner from outside. -/
theorem loosen (h : Balanced loose kept nodes)
    (hnew : ∀ id < nodes.length, id ∈ loose' → id ∈ loose)
    (hold : ∀ id ∈ loose, id ∈ loose' ∨ 0 < kept id) : Balanced loose' kept nodes := by
  induction h with
  | nil => exact .nil
  | @cons kept n older owners alive parts rest ih =>
      refine .cons owners (alive.trans ⟨?_, ?_⟩) parts (ih ?_ ?_)
      · rintro (howned | hloose)
        · exact .inl howned
        · rw [owners]
          exact (hold _ hloose).symm
      · exact Or.imp_right (hnew _ (Nat.lt_succ_self _))
      · exact fun id hid => hnew id (Nat.lt_succ_of_lt hid)
      · exact fun id hid => (hold id hid).imp_right (Nat.lt_add_right _)

/-- A caller may hold any node that is alive, and `Balanced` then counts it as loose. -/
theorem hold (h : Balanced loose kept nodes) (hn : nodeIn? nodes id = some n)
    (halive : n.alive = true) : Balanced (id :: loose) kept nodes := by
  induction h with
  | nil => exact .nil
  | @cons kept m older owners alive parts rest ih =>
      rw [nodeIn?] at hn
      split at hn
      next hid =>
        obtain rfl := Option.some.inj hn
        refine .cons owners ⟨fun _ => .inr (by simp [hid]), fun _ => halive⟩ parts ?_
        refine rest.loosen (fun other hlt hmem => ?_) (fun _ hmem => .inl (.tail _ hmem))
        exact List.mem_of_ne_of_mem (hid ▸ Nat.ne_of_lt hlt) hmem
      next hid =>
        have hne : ¬ older.length = id := Ne.symm hid
        exact .cons owners (by simpa [hne] using alive) parts (ih hn)

/-- `Grammar.acquire` adds an owner for each time that a node is in the list, which may be several
    times. -/
theorem acquire (h : Balanced loose kept nodes) (ids : List NodeId) (hids : ∀ id ∈ ids, id ∈ loose) :
    Balanced loose (fun id => kept id + ids.count id) (Grammar.acquire ids nodes) := by
  induction h with
  | nil => exact .nil
  | @cons kept n older owners alive parts rest ih =>
      have hlength := length_acquire ids older
      refine .cons ?_ ?_ (by simpa only [hlength] using parts) ?_
      · rw [hlength, owners]
      · rw [hlength]
        refine ⟨fun halive => (alive.mp halive).imp_left (Nat.lt_add_right _), ?_⟩
        rintro (howned | hloose)
        · rcases Nat.eq_zero_or_pos (ids.count older.length) with hzero | hpos
          · exact alive.mpr (.inl (by simpa [hzero] using howned))
          · exact alive.mpr (.inr (hids _ (List.count_pos_iff.mp hpos)))
        · exact alive.mpr (.inr hloose)
      · have hcounts : (fun id => kept id + ids.count id
            + Node.share { n with owners := n.owners + ids.count older.length } id)
            = fun id => kept id + n.share id + ids.count id := by
          funext id
          exact Nat.add_right_comm ..
        rw [hcounts]
        exact ih

/-- `Grammar.settle` takes lost owners off the counts, and with what is gone so also the parts of it: the
    list of lost owners grows while the nodes get older. -/
theorem settle (lost : List NodeId) (h : Balanced [] (fun id => kept id + lost.count id) nodes) :
    Balanced [] kept (Grammar.settle lost nodes) := by
  induction nodes generalizing kept lost with
  | nil => exact .nil
  | cons n older ih =>
      obtain _ | ⟨owners, alive, parts, rest⟩ := h
      have hleft : n.owners - lost.count older.length = kept older.length := by
        rw [owners]
        exact Nat.add_sub_cancel ..
      have halive : n.alive = true ↔ 0 < n.owners := by simpa using alive
      have hlength (lost : List NodeId) := length_settle lost older
      rw [Grammar.settle, hleft]
      split
      next hgone =>
        -- what the node kept has to be taken off from the older nodes
        obtain ⟨hthere, hzero⟩ : n.alive = true ∧ kept older.length = 0 := by simpa using hgone
        refine .cons (by rw [hlength]; exact hzero.symm) (by simp)
          (by simpa only [hlength] using parts) (ih _ ?_)
        have hcounts : (fun id => kept id + lost.count id + n.share id)
            = fun id => kept id + Node.share { n with owners := 0, alive := false } id
              + (n.parts ++ lost).count id := by
          funext id
          simp only [Node.share, hthere, if_true, List.count_append]
          simp only [Bool.false_eq_true, if_false]
          omega
        rw [hcounts] at rest
        exact rest
      next hstays =>
        refine .cons (by rw [hlength]) ?_ (by simpa only [hlength] using parts) (ih _ ?_)
        · rw [halive]
          have hthere : 0 < n.owners → kept older.length ≠ 0 := by
            intro howned hzero
            exact hstays (by simp [halive.mpr howned, hzero])
          simp only [List.not_mem_nil, or_false]
          omega
        · have hcounts : (fun id => kept id + lost.count id + n.share id)
              = fun id => kept id + Node.share { n with owners := kept older.length } id
                + lost.count id := by
            funext id
            exact Nat.add_right_comm ..
          rw [hcounts] at rest
          exact rest

/-! ## What the counts tell -/

/-- In `Balanced` nodes every part is older than what it is a part of. -/
theorem lt_of_part (h : Balanced loose kept nodes) (hn : nodeIn? nodes id = some n) :
    ∀ p ∈ n.parts, p < id := by
  induction h with
  | nil => cases hn
  | @cons kept m older owners alive parts rest ih =>
      rw [nodeIn?] at hn
      split at hn
      next hid =>
        obtain rfl := Option.some.inj hn
        exact hid ▸ parts
      · exact ih hn

/-- What the counts of `Balanced` amount to: a node is alive just when a caller holds it, it is kept from
    outside, or it is a part of a node that is alive. -/
theorem alive_iff (h : Balanced loose kept nodes) (hn : nodeIn? nodes id = some n) :
    n.alive = true ↔ id ∈ loose ∨ 0 < kept id ∨ ∃ m ∈ nodes, m.alive = true ∧ id ∈ m.parts := by
  induction h with
  | nil => cases hn
  | @cons kept m older owners alive parts rest ih =>
      have hpart : (∃ o ∈ m :: older, o.alive = true ∧ id ∈ o.parts) ↔
          0 < m.share id ∨ ∃ o ∈ older, o.alive = true ∧ id ∈ o.parts := by
        simp [Node.share_pos]
      rw [nodeIn?] at hn
      split at hn
      next hid =>
        obtain rfl := Option.some.inj hn
        -- all parts in the list are older than the node
        have hno : ¬ ∃ o ∈ m :: older, o.alive = true ∧ id ∈ o.parts := by
          rintro ⟨o, ho, -, hmem⟩
          rcases List.mem_cons.mp ho with rfl | ho
          · exact absurd (parts id hmem) (by simp [hid])
          · obtain ⟨other, hother⟩ := exists_nodeIn?_of_mem ho
            have hlt : id < older.length :=
              Nat.lt_trans (rest.lt_of_part hother id hmem) (lt_of_nodeIn? hother)
            exact Nat.ne_of_lt hlt hid
        rw [alive, owners, ← hid, or_iff_left hno]
        exact or_comm
      next hid =>
        have hsum : 0 < kept id + m.share id ↔ 0 < kept id ∨ 0 < m.share id :=
          Nat.add_pos_iff_pos_or_pos
        rw [ih hn, hpart, hsum, or_assoc]

end Balanced

end Grammar

end Graft
