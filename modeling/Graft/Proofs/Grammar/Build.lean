import Graft.Grammar.Blueprint
import Graft.Proofs.Grammar.Tidy

/-!
# `Graft.Proofs.Grammar.Build` — building rules keeps a grammar tidy

Building the rule of a blueprint adds nodes and slots to a grammar. The grammar stays tidy, the caller
gets a hold of the node of the rule, and nothing else is held that was not held before
(`Grammar.builds_build`). All of this is put together from what two builds in a row do
(`Grammar.Builds.append`) and from what a node around parts that were built does
(`Grammar.Builds.node`).
-/

namespace Graft

namespace Grammar

open Blueprint (Build node)

variable {g g' g'' : Grammar} {loose : List NodeId} {built built' : List (NodeId × Rule)}

/-- From a tidy grammar some rules have been built, of which a caller now has a hold. -/
structure Builds (g : Grammar) (loose : List NodeId) (built : List (NodeId × Rule))
    (g' : Grammar) : Prop where
  tidy : g'.Tidy (built.map Prod.fst ++ loose)
  grown : g.Grown g'
  made : ∀ b ∈ built, g'.made? b.1 = some b.2

/-- The inversion of `Build`: a build of two steps that succeeds is a step that succeeds after another
    one. All proofs about `build` take it apart by this lemma, without unfolding the monad. -/
theorem exists_run_of_bind {α β : Type} {x : Build α} {f : α → Build β} {b : β}
    (h : (x >>= f).run g = .ok (b, g'')) :
    ∃ a g', x.run g = .ok (a, g') ∧ (f a).run g' = .ok (b, g'') := by
  rw [StateT.run_bind] at h
  cases hx : x.run g with
  | error e =>
      rw [hx] at h
      cases h
  | ok step =>
      rw [hx] at h
      exact ⟨step.1, step.2, rfl, h⟩

namespace Builds

theorem nil (h : g.Tidy loose) : g.Builds loose [] g :=
  ⟨h, .refl g, by simp⟩

/-- `Builds` of one list after another: what was built first is loose while the rest is built. -/
theorem append (h : g.Builds loose built g')
    (h' : g'.Builds (built.map Prod.fst ++ loose) built' g'') :
    g.Builds loose (built ++ built') g'' := by
  refine ⟨h'.tidy.congr fun id => ?_, h.grown.trans h'.grown, fun b hb => ?_⟩
  · simp only [List.map_append, List.mem_append]
    rw [or_left_comm, or_assoc]
  · rcases List.mem_append.mp hb with hb | hb
    · exact made?_of_suffix h'.grown.makes (h.made b hb)
    · exact h'.made b hb

/-- `Builds` for a node around rules that were built. It takes them over, so they need not be loose any
    longer. -/
theorem node (h : g.Builds loose built g') (rule : Rule) {b : NodeId × Rule}
    (hparts : rule.parts = built.map Prod.snd) (htypeName : ∀ own name, rule ≠ .typeName own name)
    (hforward : ∀ slot, rule = .forward slot → slot < g'.slots.length)
    (hrun : (node rule (built.map Prod.fst)).run g' = .ok (b, g'')) :
    g.Builds loose [b] g'' := by
  obtain ⟨rfl, rfl⟩ := Prod.mk.inj (Except.ok.inj hrun)
  have hmade : (built.map Prod.fst).map g'.made? = rule.parts.map some := by
    rw [hparts, List.map_map, List.map_map]
    exact List.map_congr_left h.made
  refine ⟨h.tidy.add hmade htypeName hforward, h.grown.trans (grown_add ..), ?_⟩
  rintro b (_ | ⟨_, hb⟩)
  · exact made?_cons (makes_add g' rule (built.map Prod.fst))
  · cases hb

/-- `Builds` for a node that is there already, with the rule that `rule?` finds. -/
theorem held {id : NodeId} (h : g'.Tidy (id :: loose)) (hgrown : g.Grown g') :
    g.Builds loose [(id, (g'.rule? id).getD .empty)] g' := by
  obtain ⟨r, hr⟩ := exists_rule? (h.counted.isAlive (.inl (.head _)))
  refine ⟨h, hgrown, ?_⟩
  simp [hr, (rule?_eq_some_iff.mp hr).2]

/-- `node` for a rule without parts. -/
theorem leaf (h : g.Tidy loose) {rule : Rule} {b : NodeId × Rule} (hparts : rule.parts = [])
    (htypeName : ∀ own name, rule ≠ .typeName own name) (hforward : ∀ slot, rule ≠ .forward slot)
    (hrun : (Blueprint.node rule []).run g = .ok (b, g')) : g.Builds loose [b] g' :=
  (nil h).node rule hparts htypeName (fun slot heq => absurd heq (hforward slot)) hrun

end Builds

/-! ## All blueprints -/

mutual

/-- What `build` makes is new, has its parts, and leaves the grammar `Tidy` with the new node loose. By
    the constructors of `Blueprint`, mutually with `builds_buildAll` and `builds_build?`. -/
theorem builds_build [Regex.Engine] (b : Blueprint) {g g' : Grammar} {loose : List NodeId}
    {r : NodeId × Rule} (h : g.Tidy loose) (hrun : b.build.run g = .ok (r, g')) : g.Builds loose [r] g' := by
  match b with
  | .pattern source =>
      rw [Blueprint.build] at hrun
      split at hrun
      · cases hrun
      · exact .leaf h rfl (by simp) (by simp) hrun
  | .join parts =>
      obtain ⟨built, g₁, hbuilt, hnode⟩ := exists_run_of_bind hrun
      exact (builds_buildAll parts h hbuilt).node _ rfl (by simp) (by simp) hnode
  | .choice alternatives =>
      obtain ⟨built, g₁, hbuilt, hnode⟩ := exists_run_of_bind hrun
      exact (builds_buildAll alternatives h hbuilt).node _ rfl (by simp) (by simp) hnode
  | .group parts =>
      obtain ⟨built, g₁, hbuilt, hnode⟩ := exists_run_of_bind hrun
      exact (builds_buildAll parts h hbuilt).node _ rfl (by simp) (by simp) hnode
  | .optional part =>
      obtain ⟨built, g₁, hbuilt, hnode⟩ := exists_run_of_bind hrun
      exact (builds_build part h hbuilt).node (.optional built.2) rfl (by simp) (by simp) hnode
  | .list item separator opening closing allowTrailing allowEmpty =>
      obtain ⟨item', g₁, hitem, hrest⟩ := exists_run_of_bind hrun
      obtain ⟨separator', g₂, hseparator, hrest⟩ := exists_run_of_bind hrest
      obtain ⟨opening', g₃, hopening, hrest⟩ := exists_run_of_bind hrest
      obtain ⟨closing', g₄, hclosing, hnode⟩ := exists_run_of_bind hrest
      have hone := builds_build item h hitem
      have htwo := hone.append (builds_build separator hone.tidy hseparator)
      have hthree := htwo.append (builds_build? opening htwo.tidy hopening)
      have hfour := hthree.append (builds_build? closing hthree.tidy hclosing)
      refine hfour.node (.list item'.2 separator'.2 (opening'.map (·.2)) (closing'.map (·.2))
        allowTrailing allowEmpty) ?_ (by simp) (by simp) ?_
      · simp [Rule.parts, Option.toList_map]
      · have hids : (([item'] ++ [separator'] ++ opening'.toList ++ closing'.toList).map Prod.fst)
            = [item'.1, separator'.1] ++ (opening'.map (·.1)).toList
              ++ (closing'.map (·.1)).toList := by
          simp [Option.toList_map]
        rw [hids]
        exact hnode
  | .shared name =>
      obtain ⟨htidy, hgrown⟩ := h.sharedRule name
      cases hrun
      exact .held htidy hgrown
  | .typeName name =>
      obtain ⟨⟨id, rule⟩, g₁, hname, hrest⟩ := exists_run_of_bind hrun
      have hbuilt := builds_build name h hname
      cases hrest
      exact .held (hbuilt.tidy.addTypeName (hbuilt.made _ (.head _)))
        (hbuilt.grown.trans (grown_addTypeName ..))
  | .ref name =>
      obtain ⟨_, _, hget, hnode⟩ := exists_run_of_bind hrun
      cases hget
      split at hnode
      next slot hslot =>
        have hlt := h.formed.forwards _ (mem_of_lookup hslot)
        exact (Builds.nil h).node (.forward slot) rfl (by simp)
          (fun _ heq => Rule.forward.inj heq ▸ hlt) hnode
      next =>
        obtain ⟨slot, g₁, hslot, hnode⟩ := exists_run_of_bind hnode
        cases hslot
        have hgrown : g.Builds loose [] g.addSlot.2 := ⟨h.addSlot, grown_addSlot g, by simp⟩
        refine hgrown.node (.forward g.slots.length) rfl (by simp) (fun slot heq => ?_) hnode
        obtain rfl := Rule.forward.inj heq
        simp [addSlot]
  | .use name =>
      obtain ⟨_, _, hget, hnode⟩ := exists_run_of_bind hrun
      cases hget
      split at hnode
      next id hid =>
        cases hnode
        have hmem : id ∈ g.outside :=
          List.mem_append_left _ (List.mem_map_of_mem (mem_of_lookup hid))
        exact .held (h.hold (h.counted.isAlive (.inr hmem))) (.refl g)
      next => cases hnode
  | .empty | .space | .word | .dottedWord | .string | .number | .bool | .plain _ | .symbol _ =>
      exact .leaf h rfl (by simp) (by simp) hrun

/-- `builds_build` for blueprints in a row. -/
theorem builds_buildAll [Regex.Engine] (bs : List Blueprint) {g g' : Grammar} {loose : List NodeId}
    {built : List (NodeId × Rule)} (h : g.Tidy loose)
    (hrun : (Blueprint.buildAll bs).run g = .ok (built, g')) : g.Builds loose built g' := by
  match bs with
  | [] =>
      cases hrun
      exact .nil h
  | b :: rest =>
      obtain ⟨r, g₁, hb, hmore⟩ := exists_run_of_bind hrun
      obtain ⟨others, g₂, hothers, hpure⟩ := exists_run_of_bind hmore
      cases hpure
      have hone := builds_build b h hb
      exact hone.append (builds_buildAll rest hone.tidy hothers)

/-- `builds_build` for a blueprint that may be missing. -/
theorem builds_build? [Regex.Engine] (b : Option Blueprint) {g g' : Grammar} {loose : List NodeId}
    {r : Option (NodeId × Rule)} (h : g.Tidy loose)
    (hrun : (Blueprint.build? b).run g = .ok (r, g')) : g.Builds loose r.toList g' := by
  match b with
  | none =>
      cases hrun
      exact .nil h
  | some b =>
      obtain ⟨r', g₁, hb, hpure⟩ := exists_run_of_bind hrun
      cases hpure
      exact builds_build b h hb

end

end Grammar

end Graft
