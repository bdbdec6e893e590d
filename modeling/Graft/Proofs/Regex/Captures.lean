import Graft.Proofs.Text.Cut
import Graft.Regex.Record

/-!
# `Graft.Proofs.Regex.Captures` — where matches and their groups lie

A match of an expression is a range of the text it was looked for in, with a cut at both ends, and so
is everything that one of its groups matched (`exists_path_of_find?`, `within_of_group?`).

Both come from what a walk does on its way. It only moves forward along the text, and to the groups
noted before it adds new ones: each of them is one of the walk's own groups and lies between where the
walk began and where it has come to (`Cursor.Reaches`, `reaches_of_mem_paths`).
-/

namespace Graft

namespace Regex

/-! ## Places of a text -/

namespace Cursor

/-- A place that lies in a text: what is to come is what the text holds from there on. -/
def On (t : Text) (x : Cursor) : Prop :=
  t.from? x.offset = some x.rest

variable {t : Text} {indices indices' : List Nat} {x y z : Cursor}

/-- What a walk through groups of the given numbers does between two places: it moves forward, and
    notes groups between them. -/
structure Reaches (t : Text) (indices : List Nat) (x y : Cursor) : Prop where
  on : y.On t
  le : x.offset ≤ y.offset
  groups : ∃ new, y.groups = new ++ x.groups ∧
    ∀ g ∈ new, g.1 ∈ indices ∧ g.2.Within t x.offset y.offset

theorem Reaches.refl (h : x.On t) : Reaches t indices x x :=
  ⟨h, Nat.le_refl _, [], rfl, by simp⟩

theorem Reaches.mono (h : Reaches t indices x y) (hsub : indices ⊆ indices') :
    Reaches t indices' x y := by
  obtain ⟨new, hnew, hgroups⟩ := h.groups
  exact ⟨h.on, h.le, new, hnew, fun g hg => ⟨hsub (hgroups g hg).1, (hgroups g hg).2⟩⟩

theorem Reaches.trans (h : Reaches t indices x y) (h' : Reaches t indices y z) :
    Reaches t indices x z := by
  obtain ⟨new, hnew, hgroups⟩ := h.groups
  obtain ⟨new', hnew', hgroups'⟩ := h'.groups
  refine ⟨h'.on, Nat.le_trans h.le h'.le, new' ++ new, by rw [hnew', hnew, List.append_assoc], ?_⟩
  intro g hg
  rcases List.mem_append.mp hg with hg | hg
  · exact ⟨(hgroups' g hg).1, (hgroups' g hg).2.mono h.le (Nat.le_refl _)⟩
  · exact ⟨(hgroups g hg).1, (hgroups g hg).2.mono (Nat.le_refl _) h'.le⟩

theorem Reaches.groups_eq (h : Reaches t [] x y) : y.groups = x.groups := by
  obtain ⟨new, hnew, hgroups⟩ := h.groups
  rcases new with _ | ⟨g, new⟩
  · exact hnew
  · cases (hgroups g (List.mem_cons_self ..)).1

/-- Groups other than `indices` are looked up as before. -/
theorem Reaches.lookup_eq (h : Reaches t indices x y) {i : Nat} (hi : i ∉ indices) :
    y.groups.lookup i = x.groups.lookup i := by
  obtain ⟨new, hnew, hgroups⟩ := h.groups
  have hnone : new.lookup i = none := by
    rw [List.lookup_eq_none_iff]
    intro g hg
    simpa using fun heq : i = g.1 => hi (heq ▸ (hgroups g hg).1)
  rw [hnew, List.lookup_append, hnone, Option.none_or]

theorem reaches_pass (h : x.On t) (label : Nat) : Reaches t indices x (x.pass label) :=
  ⟨h, Nat.le_refl _, [], rfl, by simp⟩

theorem reaches_of_consume? {s : CharSet} (h : x.On t) (hy : x.consume? s = some y) :
    Reaches t indices x y := by
  unfold consume? at hy
  split at hy
  next c rest hrest =>
    split at hy
    · obtain rfl := Option.some.inj hy
      refine ⟨?_, Nat.le_add_right _ _, [], rfl, by simp⟩
      have hc : Text.from? (c :: rest) c.utf8Size = some rest := by
        simpa using Text.from?_size_append [c] rest
      rw [On, Text.from?_add h, hrest]
      exact hc
    · cases hy
  next => cases hy

/-- A group that is noted when a walk has come to `y` lies between where it began and `y`. -/
theorem Reaches.close (h : Reaches t indices x y) (hx : x.On t) (index : Nat) :
    Reaches t (index :: indices) x (y.close index x.offset) := by
  obtain ⟨new, hnew, hgroups⟩ := h.groups
  refine ⟨h.on, h.le, (index, ⟨x.offset, y.offset⟩) :: new, by simp [Cursor.close, hnew], ?_⟩
  intro g hg
  rcases List.mem_cons.mp hg with rfl | hg
  · exact ⟨List.mem_cons_self .., Nat.le_refl _, h.le, Nat.le_refl _,
      Text.isBoundary_of_from? hx, Text.isBoundary_of_from? h.on⟩
  · exact ⟨List.mem_cons_of_mem _ (hgroups g hg).1, (hgroups g hg).2⟩

end Cursor

open Cursor (Reaches)

/-! ## Walks through an expression -/

namespace Matcher

variable {t : Text}

/-- The numbers of the groups of an expression. -/
def indices : Matcher → List Nat
  | empty | set _ | look _ => []
  | capture index m => index :: indices m
  | seq a b => indices a ++ indices b
  | alt _ a b => indices a ++ indices b
  | plus _ _ m => indices m

/-- The rounds of a loop: `Reaches` holds along all of them if it holds along one. -/
theorem reaches_of_mem_againPaths {round : Cursor → List Cursor} {groups : List Nat}
    (h : ∀ x y, x.On t → y ∈ round x → Reaches t groups x y) (label : Nat) (greedy : Bool)
    (bound : Nat) {x y : Cursor} (hx : x.On t)
    (hy : y ∈ againPaths round label greedy bound x) : Reaches t groups x y := by
  induction bound generalizing x with
  | zero => simp [againPaths] at hy
  | succ bound ih =>
      have hpass : Reaches t groups x (x.pass label) := Cursor.reaches_pass hx label
      rcases mem_againPaths_succ hy with ⟨z, hz, hy⟩ | rfl
      · have hround := h _ _ hpass.on hz
        exact (hpass.trans hround).trans (ih hround.on hy)
      · exact hpass

/-- Each path moves forward along the text and notes groups of the expression only. By the constructors of
    `Matcher`; loops are `reaches_of_mem_againPaths`. -/
theorem reaches_of_mem_paths (m : Matcher) {x y : Cursor} (hx : x.On t) (h : y ∈ m.paths x) :
    Reaches t m.indices x y := by
  induction m generalizing x y with
  | empty =>
      obtain rfl := List.mem_singleton.mp h
      exact .refl hx
  | set s => exact Cursor.reaches_of_consume? hx (by simpa [paths] using h)
  | look l =>
      simp only [paths] at h
      split at h
      · obtain rfl := List.mem_singleton.mp h
        exact .refl hx
      · cases h
  | capture index m ih =>
      simp only [paths, List.mem_map] at h
      obtain ⟨z, hz, rfl⟩ := h
      exact (ih hx hz).close hx index
  | seq a b iha ihb =>
      simp only [paths, List.mem_flatMap] at h
      obtain ⟨z, hz, h⟩ := h
      have ha := iha hx hz
      exact (ha.mono (List.subset_append_left _ _)).trans
        ((ihb ha.on h).mono (List.subset_append_right _ _))
  | alt label a b iha ihb =>
      simp only [paths] at h
      split at h
      · cases h
      · have hpass : ∀ groups, Reaches t groups x (x.pass label) := fun _ =>
          Cursor.reaches_pass hx label
        rcases List.mem_append.mp h with h | h
        · exact (hpass _).trans ((iha (hpass []).on h).mono (List.subset_append_left _ _))
        · exact (hpass _).trans ((ihb (hpass []).on h).mono (List.subset_append_right _ _))
  | plus label greedy m ih =>
      simp only [paths, List.mem_flatMap] at h
      obtain ⟨z, hz, h⟩ := h
      have hm := ih hx hz
      exact hm.trans (reaches_of_mem_againPaths (fun _ _ hx => ih hx) label greedy _ hm.on h)

/-- Where an expression starts with a `capture`, the groups of what follows lie behind it. -/
theorem within_of_later_group {first later : Matcher} {i j : Nat} {x y : Cursor} {s s' : Span}
    (hx : x.On t) (hnil : x.groups = []) (hy : y ∈ (seq (capture i first) later).paths x)
    (hi : i ∉ later.indices) (hj : j ∉ (capture i first).indices)
    (hs : y.groups.lookup i = some s) (hs' : y.groups.lookup j = some s') :
    s'.Within t s.stop y.offset := by
  obtain ⟨w, hw, hy⟩ := List.mem_flatMap.mp hy
  obtain ⟨z, hz, rfl⟩ := List.mem_map.mp hw
  have hfirst := reaches_of_mem_paths first hx hz
  have hlater := reaches_of_mem_paths later (hfirst.close hx i).on hy
  obtain ⟨old, hold, holdIn⟩ := hfirst.groups
  obtain ⟨new, hnew, hnewIn⟩ := hlater.groups
  rw [hnil, List.append_nil] at hold
  have hgroups : y.groups = new ++ (i, ⟨x.offset, z.offset⟩) :: old := by
    rw [hnew, ← hold]
    rfl
  -- the first group is the only one of its number, so looking it up finds this entry
  have hstop : s.stop = z.offset := by
    have hentry : (z.close i x.offset).groups.lookup i = some ⟨x.offset, z.offset⟩ :=
      List.lookup_cons_self
    rw [hlater.lookup_eq hi, hentry] at hs
    rw [← Option.some.inj hs]
  have hmem : (j, s') ∈ new ++ (i, ⟨x.offset, z.offset⟩) :: old := by
    obtain ⟨before, after, hsplit, -⟩ := List.lookup_eq_some_iff.mp hs'
    rw [← hgroups, hsplit]
    exact List.mem_append_right _ (List.mem_cons_self ..)
  rcases List.mem_append.mp hmem with hmem | hmem
  · exact hstop ▸ (hnewIn _ hmem).2
  rcases List.mem_cons.mp hmem with heq | hmem
  · exact absurd (Prod.mk.inj heq).1 fun h => hj (h ▸ List.mem_cons_self ..)
  · exact absurd (List.mem_cons_of_mem _ (holdIn _ hmem).1) hj

/-! ## Matches -/

/-- The inversion of `matchAt?`: a match is where one of the `paths` ends. -/
theorem exists_path_of_matchAt? {m : Matcher} {x : Cursor} {found : Match}
    (h : m.matchAt? x = some found) :
    ∃ y ∈ m.paths x, found = ⟨⟨x.offset, y.offset⟩, y.groups⟩ := by
  rw [matchAt?, first_eq_findSome?] at h
  obtain ⟨y, hy, hfound⟩ := List.exists_of_findSome?_eq_some h
  exact ⟨y, hy, (Option.some.inj hfound).symm⟩

/-- Whatever is found was found by a walk through the expression from some place of the text on. -/
theorem exists_path_of_findFrom? {m : Matcher} {before : Option Char} {offset : Nat} {rest : Text}
    {found : Match} (hon : t.from? offset = some rest)
    (h : m.findFrom? before offset rest = some found) :
    ∃ x y, x.On t ∧ x.groups = [] ∧ y ∈ m.paths x ∧
      found = ⟨⟨x.offset, y.offset⟩, y.groups⟩ := by
  induction rest generalizing before offset with
  | nil =>
      obtain ⟨y, hy, hfound⟩ := exists_path_of_matchAt? h
      exact ⟨⟨before, [], offset, [], []⟩, y, hon, rfl, hy, hfound⟩
  | cons c rest ih =>
      rw [findFrom?, Option.orElse_eq_orElse, Option.orElse_eq_or, Option.or_eq_some_iff] at h
      rcases h with h | ⟨-, h⟩
      · obtain ⟨y, hy, hfound⟩ := exists_path_of_matchAt? h
        exact ⟨⟨before, c :: rest, offset, [], []⟩, y, hon, rfl, hy, hfound⟩
      · have hc : Text.from? (c :: rest) c.utf8Size = some rest := by
          simpa using Text.from?_size_append [c] rest
        exact ih (by rw [Text.from?_add hon]; exact hc) h

end Matcher

/-- The inversion of `find?`: the same from some place of the text. -/
theorem Program.exists_path_of_find? {p : Program} {t : Text} {found : Match}
    (h : p.find? t = some found) :
    ∃ x y, x.On t ∧ x.groups = [] ∧ y ∈ p.matcher.paths x ∧
      found = ⟨⟨x.offset, y.offset⟩, y.groups⟩ := by
  rw [find?_eq] at h
  exact Matcher.exists_path_of_findFrom? (Text.from?_zero t) h

/-- What `find?` finds is a range of the text, since `reaches_of_mem_paths` keeps to cuts. -/
theorem Program.within_of_find? {p : Program} {t : Text} {found : Match}
    (h : p.find? t = some found) : found.span.Within t 0 t.size := by
  obtain ⟨x, y, hx, -, hy, rfl⟩ := exists_path_of_find? h
  have hreach := Matcher.reaches_of_mem_paths _ hx hy
  have hy := Text.isBoundary_of_from? hreach.on
  exact ⟨Nat.zero_le _, hreach.le, Text.le_size_of_isBoundary hy, Text.isBoundary_of_from? hx, hy⟩

/-- A `group?` of a match is a range inside the match. -/
theorem Program.within_of_group? {p : Program} {t : Text} {found : Match} {index : Nat} {s : Span}
    (h : p.find? t = some found) (hs : found.group? index = some s) :
    s.Within t found.span.start found.span.stop := by
  obtain ⟨x, y, hx, hnil, hy, rfl⟩ := exists_path_of_find? h
  obtain ⟨new, hnew, hgroups⟩ := (Matcher.reaches_of_mem_paths _ hx hy).groups
  rw [hnil, List.append_nil] at hnew
  obtain ⟨before, after, hsplit, -⟩ := List.lookup_eq_some_iff.mp hs
  have hmem : (index, s) ∈ y.groups := by
    rw [show y.groups = before ++ (index, s) :: after from hsplit]
    exact List.mem_append_right _ (List.mem_cons_self ..)
  exact (hgroups _ (hnew ▸ hmem)).2

end Regex

end Graft
