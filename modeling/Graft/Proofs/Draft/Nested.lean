import Graft.Proofs.Draft.Digest

/-!
# `Graft.Proofs.Draft.Nested` — a window revised on its own, or as part of what is around it

Part of a window can be revised in a draft of its own, and the digest of that draft put in the place of
the part; or the edits of the inner draft can be submitted to the outer one directly. Both ways come to
the same text (`digest?_nested`).

Everything the outer draft holds lies on one side of the part (`before_or_after`), because it conflicts
with no edit that replaces the whole of it. So the inner edits conflict with none of it either, and in
order they stand between what lies before the part and what lies after it, just as the one edit does.
Only an insertion at an end of the part could come between them, or stand on the other side of them.
-/

namespace Graft

open Text (Patched)

namespace Edit

variable {x e : Edit} {a b : Nat}

/-- An edit lies before a part of the text, and begins before it begins. -/
def Before (a : Nat) (x : Edit) : Prop :=
  x.start < a ∧ x.stop ≤ a

/-- An edit lies after a part of the text, and ends after it ends. -/
def After (b : Nat) (x : Edit) : Prop :=
  b ≤ x.start ∧ b < x.stop

/-- An edit that does not conflict with the replacement of `a` to `b` lies `Before` or `After` that part.
    An insertion at one of its ends conflicts with nothing, and has to be excluded. -/
theorem before_or_after {s : Text} (hx : x.start ≤ x.stop)
    (hfree : ¬ x.conflictsWith ⟨a, b, s⟩ = true)
    (hinsertion : x.start = x.stop → x.start ≠ a ∧ x.start ≠ b) : x.Before a ∨ x.After b := by
  rw [conflictsWith_iff] at hfree
  unfold Before After
  dsimp only at hfree
  by_cases hempty : x.start = x.stop
  · have := hinsertion hempty
    omega
  · omega

/-- An edit that ends in front of a place is not after one that starts there. -/
theorem Before.notAfter (h : x.Before a) (he : a ≤ e.start) : x.notAfter e = true := by
  rw [notAfter_iff]
  exact .inl (Nat.lt_of_lt_of_le h.1 he)

/-- And one behind it is. -/
theorem After.not_notAfter (h : x.After b) (he : e.start ≤ e.stop) (hb : e.stop ≤ b) :
    ¬ x.notAfter e = true := by
  rw [notAfter_iff]
  unfold After at h
  omega

/-- What is `Before` or `After` a part conflicts with no edit inside the part. -/
theorem not_conflictsWith_of_before_or_after (h : x.Before a ∨ x.After b) (ha : a ≤ e.start)
    (hb : e.stop ≤ b) : ¬ x.conflictsWith e = true := by
  rw [conflictsWith_iff]
  unfold Before After at h
  omega

end Edit

namespace Draft

/-! ## The edits around a part -/

/-- An ordered list of edits on the sides of a part is split by it: all that are `Before` come first. -/
theorem exists_before_after {sorted : List Edit} {a b : Nat}
    (hsorted : sorted.Pairwise (·.notAfter · = true)) (hle : a ≤ b)
    (hsides : ∀ x ∈ sorted, x.Before a ∨ x.After b) :
    ∃ before after, sorted = before ++ after ∧ (∀ x ∈ before, x.Before a) ∧
      ∀ x ∈ after, x.After b := by
  induction sorted with
  | nil => exact ⟨[], [], rfl, by simp, by simp⟩
  | cons x rest ih =>
      obtain ⟨hx, hrest⟩ := List.pairwise_cons.mp hsorted
      rcases hsides x (List.mem_cons_self ..) with hbefore | hafter
      · obtain ⟨before, after, rfl, hall, hall'⟩ :=
          ih hrest fun y hy => hsides y (List.mem_cons_of_mem _ hy)
        refine ⟨x :: before, after, rfl, fun y hy => ?_, hall'⟩
        rcases List.mem_cons.mp hy with rfl | hy
        · exact hbefore
        · exact hall y hy
      · -- what stands after an edit after the part lies after the part as well
        refine ⟨[], x :: rest, rfl, by simp, fun y hy => ?_⟩
        rcases List.mem_cons.mp hy with rfl | hy
        · exact hafter
        rcases hsides y (List.mem_cons_of_mem _ hy) with hy' | hy'
        · have hxy := hx y hy
          rw [Edit.notAfter_iff] at hxy
          unfold Edit.Before at hy'
          unfold Edit.After at hafter
          omega
        · exact hy'

/-- `submitAll` accepts the inner edits in a draft that holds nothing but edits `Before` and `After` the
    part, by `submitAll_of_apart`. -/
theorem submitAll_of_sides {d : Draft} {a b : Nat} {inner : List Edit}
    (hwithin : ∀ e ∈ inner, e.span.Within d.text a b) (hstart : d.scope.start ≤ a)
    (hstop : b ≤ d.scope.stop) (hsides : ∀ x ∈ d.edits, x.Before a ∨ x.After b)
    (hapart : inner.Pairwise (¬ ·.conflictsWith · = true)) :
    d.submitAll inner = { d with edits := d.edits ++ inner } := by
  refine submitAll_of_apart (fun e he => (hwithin e he).mono hstart hstop) ?_ hapart
  intro x hx e he
  exact Edit.not_conflictsWith_of_before_or_after (hsides x hx) (hwithin e he).le_start
    (hwithin e he).stop_le

/-! ## Digests -/

/-- The digest of a `Coherent` draft in three: the edits `Before` the part make `head`, those `After` it
    make `tail`, and the part between is free. `exists_before_after` splits the list, and
    `Text.exists_patched` carries out each half of it. -/
theorem Coherent.exists_sides {d : Draft} (h : d.Coherent) {a b : Nat} (hle : a ≤ b)
    (ha : d.text.isBoundary a = true) (hb : d.text.isBoundary b = true)
    (hstart : d.scope.start ≤ a) (hstop : b ≤ d.scope.stop)
    (hsides : ∀ x ∈ d.edits, x.Before a ∨ x.After b) :
    ∃ before after head tail, Edit.inOrder d.edits = before ++ after ∧
      (∀ x ∈ before, x.Before a) ∧ (∀ x ∈ after, x.After b) ∧
      Patched d.text a d.scope.start (before.map Edit.patch) head ∧
      Patched d.text d.scope.stop b (after.map Edit.patch) tail := by
  have hordered := Edit.ordered_inOrder d.edits
  obtain ⟨before, after, hsplit, hbefore, hafter⟩ := exists_before_after hordered.1 hle
    fun x hx => hsides x (hordered.perm.mem_iff.mp hx)
  have hpairwise := hsplit ▸ h.pairwise_inOrder
  obtain ⟨hpairwise, hpairwise', -⟩ := List.pairwise_append.mp hpairwise
  obtain ⟨head, hhead⟩ : ∃ head, Patched d.text a d.scope.start (before.map Edit.patch) head := by
    refine Text.exists_patched h.scope_start_boundary ha hstart ?_ (List.pairwise_map.mpr hpairwise)
    intro p hp
    obtain ⟨x, hx, rfl⟩ := List.mem_map.mp hp
    have hwithin := h.within_inOrder (hsplit ▸ List.mem_append_left _ hx)
    exact { hwithin with stop_le := (hbefore x hx).2 }
  obtain ⟨tail, htail⟩ : ∃ tail, Patched d.text d.scope.stop b (after.map Edit.patch) tail := by
    refine Text.exists_patched hb h.scope_stop_boundary hstop ?_ (List.pairwise_map.mpr hpairwise')
    intro p hp
    obtain ⟨x, hx, rfl⟩ := List.mem_map.mp hp
    have hwithin := h.within_inOrder (hsplit ▸ List.mem_append_right _ hx)
    exact { hwithin with le_start := (hafter x hx).1 }
  exact ⟨before, after, head, tail, hsplit, hbefore, hafter, hhead, htail⟩

/-- `digest?` after inner edits: `head` and `tail` of `Coherent.exists_sides` stay as they are, since
    `Edit.inOrder_between` puts the inner edits between the others. -/
theorem digest?_of_sides {d : Draft} {a b : Nat} {before after inner : List Edit}
    {head x tail : Text} (hsplit : Edit.inOrder d.edits = before ++ after)
    (hbefore : ∀ x ∈ before, x.Before a) (hafter : ∀ x ∈ after, x.After b)
    (hhead : Patched d.text a d.scope.start (before.map Edit.patch) head)
    (htail : Patched d.text d.scope.stop b (after.map Edit.patch) tail)
    (hwithin : ∀ e ∈ inner, e.span.Within d.text a b)
    (hinner : Patched d.text b a ((Edit.inOrder inner).map Edit.patch) x) :
    digest? { d with edits := d.edits ++ inner } = some (head ++ (x ++ tail)) := by
  have horder : Edit.inOrder (d.edits ++ inner) = before ++ (Edit.inOrder inner ++ after) := by
    refine Edit.inOrder_between hsplit (fun y hy e he => ?_) fun y hy e he => ?_
    · exact (hbefore y hy).notAfter (hwithin e he).le_start
    · exact (hafter y hy).not_notAfter (hwithin e he).start_le_stop (hwithin e he).stop_le
  rw [digest?]
  dsimp only
  rw [horder]
  apply splice?_of_patched
  rw [List.map_append, List.map_append]
  exact hhead.append (hinner.append htail)

/-- `ofWindow` over two cuts of the text clamps nothing. -/
theorem scope_ofWindow {t : Text} {a b : Nat} (ha : t.isBoundary a = true)
    (hb : t.isBoundary b = true) (hle : a ≤ b) : (ofWindow t a b).scope = ⟨a, b⟩ := by
  have hsize : min b t.size = b := Nat.min_eq_left (Text.le_size_of_isBoundary hb)
  simp only [ofWindow, hsize, Text.floorBoundary_of_isBoundary hb, Nat.min_eq_left hle,
    Text.floorBoundary_of_isBoundary ha]

/-- If `submit` made an edit the last of the accepted ones, `judge?` had nothing against it: a refusal
    would have left their list shorter. -/
theorem judge?_eq_none_of_submit {d : Draft} {e : Edit}
    (h : (d.submit e).edits = d.edits ++ [e]) : d.judge? e = none := by
  cases hjudge : d.judge? e with
  | none => rfl
  | some r =>
      rw [submit_of_judge?_eq_some hjudge] at h
      simp at h

/-- **Nesting.** A part of the scope, with cuts at both ends, is revised in an `inner` draft. Its
    `digest?` exists; and if the outer draft holds no insertion at an end of the part and takes the digest
    in its place, it takes all the accepted inner edits as well, and its `digest?` is the same either way.
    Both come to `digest?_of_sides`, with the one edit in the middle or with the inner ones. -/
theorem digest?_nested {t : Text} {d inner : Draft} {start stop a b : Nat} {edits edits' : List Edit}
    (hd : d = (ofWindow t start stop).submitAll edits)
    (hinner : inner = (ofWindow t a b).submitAll edits') (hle : a ≤ b)
    (ha : t.isBoundary a = true) (hb : t.isBoundary b = true) (hstart : d.scope.start ≤ a)
    (hstop : b ≤ d.scope.stop)
    (hinsertion : ∀ e ∈ d.edits, e.start = e.stop → e.start ≠ a ∧ e.start ≠ b) :
    ∃ x, inner.digest? = some x ∧
      ((d.submit ⟨a, b, x⟩).edits = d.edits ++ [⟨a, b, x⟩] →
        d.submitAll inner.edits = { d with edits := d.edits ++ inner.edits } ∧
          ∃ out, (d.submit ⟨a, b, x⟩).digest? = some out ∧
            (d.submitAll inner.edits).digest? = some out) := by
  have hcoherent : d.Coherent := hd ▸ (coherent_ofWindow t start stop).submitAll edits
  have hcoherent' : inner.Coherent := hinner ▸ (coherent_ofWindow t a b).submitAll edits'
  have htext : d.text = t := hd ▸ text_submitAll _ edits
  have htext' : inner.text = d.text := htext ▸ hinner ▸ text_submitAll _ edits'
  have hscope : inner.scope = ⟨a, b⟩ := by
    rw [hinner, scope_submitAll, scope_ofWindow ha hb hle]
  rw [← htext] at ha hb
  obtain ⟨x, hx, hpatched⟩ := digest?_patched hcoherent'
  rw [htext', hscope] at hpatched
  refine ⟨x, hx, fun haccepted => ?_⟩
  -- the outer draft holds nothing that conflicts with the whole part, so all of it lies to the sides
  have hadmitted := judge?_eq_none_of_submit haccepted
  have hsides : ∀ e ∈ d.edits, e.Before a ∨ e.After b := fun e he =>
    Edit.before_or_after (hcoherent.within e he).start_le_stop
      ((judge?_eq_none_iff.mp hadmitted).2 e he) (hinsertion e he)
  have hwithin : ∀ e ∈ inner.edits, e.span.Within d.text a b := by
    intro e he
    have := hcoherent'.within e he
    rwa [htext', hscope] at this
  have hflat := submitAll_of_sides hwithin hstart hstop hsides hcoherent'.apart
  obtain ⟨before, after, head, tail, hsplit, hbefore, hafter, hhead, htail⟩ :=
    hcoherent.exists_sides hle ha hb hstart hstop hsides
  refine ⟨hflat, head ++ (x ++ tail), ?_, ?_⟩
  · rw [submit_of_judge?_eq_none hadmitted]
    refine digest?_of_sides hsplit hbefore hafter hhead htail ?_ (Text.patched_all hle ha hb x)
    intro e he
    obtain rfl := List.mem_singleton.mp he
    exact ⟨Nat.le_refl _, hle, Nat.le_refl _, ha, hb⟩
  · rw [hflat]
    exact digest?_of_sides hsplit hbefore hafter hhead htail hwithin hpatched

/-- `digest?_nested` for a part revised at both of its ends, between an insertion and a replacement. One
    of the inner edits is refused, because it would split a character. -/
theorem digest?_nested_accent : ∃ out,
    (((ofWindow ['a', 'é', 'b', 'c', 'd'] 0 6).submitAll
        [⟨5, 6, ['D']⟩, ⟨0, 0, ['<']⟩]).submit ⟨1, 4, ['e', 'b', '!']⟩).digest? = some out ∧
      (((ofWindow ['a', 'é', 'b', 'c', 'd'] 0 6).submitAll [⟨5, 6, ['D']⟩, ⟨0, 0, ['<']⟩]).submitAll
        ((ofWindow ['a', 'é', 'b', 'c', 'd'] 1 4).submitAll
          [⟨4, 4, ['!']⟩, ⟨2, 3, []⟩, ⟨1, 3, ['e']⟩]).edits).digest? = some out := by
  obtain ⟨x, hx, h⟩ := @digest?_nested ['a', 'é', 'b', 'c', 'd']
    ((ofWindow ['a', 'é', 'b', 'c', 'd'] 0 6).submitAll [⟨5, 6, ['D']⟩, ⟨0, 0, ['<']⟩])
    ((ofWindow ['a', 'é', 'b', 'c', 'd'] 1 4).submitAll
      [⟨4, 4, ['!']⟩, ⟨2, 3, []⟩, ⟨1, 3, ['e']⟩])
    _ _ 1 4 _ _ rfl rfl (by decide) rfl rfl (by decide) (by decide) (by decide)
  obtain rfl : ['e', 'b', '!'] = x := Option.some.inj hx
  obtain ⟨-, out, hone, hall⟩ := h rfl
  exact ⟨out, hone, hall⟩

end Draft

end Graft
