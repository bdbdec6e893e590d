import Graft.Regex.Follows
import Graft.Regex.Search

/-!
# `Graft.Regex.Record` — the record of a search

A search with a record finds what matching without one finds: `Program.find?_eq`.

Whether a match will be found does not depend on what groups have matched so far, so a visit needs no
note of that (`leads_bare`). For each label, `marks` says from which places a visit leads nowhere. As
all labels differ, each has one mark, and a record that agrees with the marks goes on agreeing with
them while the search adds to it (`search_computes`).
-/

namespace Graft.Regex

/-- The place without what groups have matched. -/
def Cursor.bare (x : Cursor) : Cursor :=
  { x with groups := [] }

open Cursor (Follows)

namespace Matcher

variable {β : Type}

/-! ## What visits lead to -/

/-- Whether some place where a match may end is accepted. -/
def Leads (m : Matcher) (accepts : Cursor → Prop) (x : Cursor) : Prop :=
  ∃ y ∈ m.paths x, accepts y.bare

/-- Whether some place reached by further rounds, or the place itself, is accepted. -/
def RoundsLead (m : Matcher) (label : Nat) (greedy : Bool) (accepts : Cursor → Prop)
    (x : Cursor) : Prop :=
  ∃ y ∈ againPaths m.paths label greedy (x.rest.length + 1) x, accepts y.bare

theorem map_bare_againPaths {round : Cursor → List Cursor}
    (h : ∀ x, (round x).map Cursor.bare = (round x.bare).map Cursor.bare) (label : Nat)
    (greedy : Bool) (bound : Nat) (x : Cursor) :
    (againPaths round label greedy bound x).map Cursor.bare
      = (againPaths round label greedy bound x.bare).map Cursor.bare := by
  induction bound generalizing x with
  | zero => rfl
  | succ bound ih =>
      have further : ∀ z : Cursor,
          ((round z).flatMap fun y => againPaths round label greedy bound y).map Cursor.bare
            = ((round z.bare).flatMap fun y => againPaths round label greedy bound y).map
                Cursor.bare := by
        intro z
        have expand : ∀ l : List Cursor,
            (l.flatMap fun y => againPaths round label greedy bound y).map Cursor.bare
              = (l.map Cursor.bare).flatMap fun y =>
                  (againPaths round label greedy bound y).map Cursor.bare := by
          intro l
          rw [List.map_flatMap, List.flatMap_map]
          congr 1
          funext y
          exact ih y
        rw [expand, expand, h z]
      have hpass := further (x.pass label)
      unfold againPaths
      by_cases hs : label ∈ x.seen
      · simp [hs, Cursor.bare]
      · have hs' : label ∉ x.bare.seen := hs
        cases greedy
        · simp only [hs, hs', if_false, Bool.false_eq_true, List.map_cons, hpass]
          rfl
        · simp only [hs, hs', if_false, if_true, List.map_append, hpass]
          rfl

/-- Groups have no influence on `paths`, but for being noted. -/
theorem map_bare_paths (m : Matcher) (x : Cursor) :
    (m.paths x).map Cursor.bare = (m.paths x.bare).map Cursor.bare := by
  induction m generalizing x with
  | empty => rfl
  | set s =>
      simp only [paths, Cursor.consume?, Cursor.bare]
      split
      · split <;> rfl
      · rfl
  | look l => by_cases h : l.holds x.before x.rest.head? <;> simp [paths, Cursor.bare, h]
  | capture index m ih =>
      simp only [paths, List.map_map]
      exact ih x
  | seq a b iha ihb =>
      have expand : ∀ l : List Cursor, (l.flatMap b.paths).map Cursor.bare
          = (l.map Cursor.bare).flatMap fun y => (b.paths y).map Cursor.bare := by
        intro l
        rw [List.map_flatMap, List.flatMap_map]
        congr 1
        funext y
        exact ihb y
      simp only [paths]
      rw [expand, expand, iha x]
  | alt label a b iha ihb =>
      have ha := iha (x.pass label)
      have hb := ihb (x.pass label)
      by_cases hs : label ∈ x.seen
      · simp [paths, hs, Cursor.bare]
      · have hs' : label ∉ x.bare.seen := hs
        simp only [paths, hs, hs', if_false, List.map_append, ha, hb]
        rfl
  | plus label greedy m ih =>
      have expand : ∀ l : List Cursor,
          (l.flatMap fun y => againPaths m.paths label greedy (x.rest.length + 1) y).map Cursor.bare
            = (l.map Cursor.bare).flatMap fun y =>
                (againPaths m.paths label greedy (x.rest.length + 1) y).map Cursor.bare := by
        intro l
        rw [List.map_flatMap, List.flatMap_map]
        congr 1
        funext y
        exact map_bare_againPaths ih label greedy _ y
      simp only [paths]
      rw [expand, ih x]
      exact (expand (m.paths x.bare)).symm

theorem exists_bare_iff (accepts : Cursor → Prop) (l : List Cursor) :
    (∃ y ∈ l, accepts y.bare) ↔ ∃ z ∈ l.map Cursor.bare, accepts z := by
  constructor
  · rintro ⟨y, hy, h⟩
    exact ⟨y.bare, List.mem_map_of_mem hy, h⟩
  · rintro ⟨z, hz, h⟩
    obtain ⟨y, hy, rfl⟩ := List.mem_map.1 hz
    exact ⟨y, hy, h⟩

theorem leads_bare (m : Matcher) (accepts : Cursor → Prop) (x : Cursor) :
    m.Leads accepts x.bare ↔ m.Leads accepts x := by
  unfold Leads
  rw [exists_bare_iff, exists_bare_iff, ← map_bare_paths]

theorem roundsLead_bare (m : Matcher) (label : Nat) (greedy : Bool) (accepts : Cursor → Prop)
    (x : Cursor) : m.RoundsLead label greedy accepts x.bare
      ↔ m.RoundsLead label greedy accepts x := by
  unfold RoundsLead
  rw [exists_bare_iff, exists_bare_iff, map_bare_againPaths (map_bare_paths m) label greedy _ x]
  rfl

theorem isSome_findSome?_iff {k : Cursor → Option β} {accepts : Cursor → Prop}
    (hk : ∀ y, (k y).isSome ↔ accepts y.bare) (l : List Cursor) :
    (l.findSome? k).isSome ↔ ∃ y ∈ l, accepts y.bare := by
  simp [List.findSome?_isSome_iff, hk]

/-- Whether `first` finds something is whether the expression `Leads` to a place that is accepted. -/
theorem isSome_first_iff (m : Matcher) {k : Cursor → Option β} {accepts : Cursor → Prop}
    (hk : ∀ y, (k y).isSome ↔ accepts y.bare) (x : Cursor) :
    (m.first x k).isSome ↔ m.Leads accepts x := by
  rw [first_eq_findSome?]
  exact isSome_findSome?_iff hk _

/-- Whether `rounds?` finds anything is told by `RoundsLead`, if whether what comes after accepts an end
    is told without the record of the walk to it. -/
theorem isSome_rounds?_iff (m : Matcher) (label : Nat) (greedy : Bool) {k : Cursor → Option β}
    {accepts : Cursor → Prop} (hk : ∀ y, (k y).isSome ↔ accepts y.bare) (x : Cursor) :
    (m.rounds? label greedy k x).isSome ↔ m.RoundsLead label greedy accepts x := by
  unfold rounds?
  rw [again_eq_findSome? (first_eq_findSome? m)]
  exact isSome_findSome?_iff hk _

/-! ## Marks -/

/-- For each label, the places from where a visit leads nowhere, if matches have to end at accepted
    places. -/
def marks : Matcher → (Cursor → Prop) → List (Nat × (Cursor → Prop))
  | empty, _ | set _, _ | look _, _ => []
  | capture _ m, accepts => marks m accepts
  | seq a b, accepts => marks a (b.Leads accepts) ++ marks b accepts
  | alt label a b, accepts =>
      (label, fun x => ¬ (alt label a b).Leads accepts x) :: (marks a accepts ++ marks b accepts)
  | plus label greedy m, accepts =>
      (label, fun x => ¬ m.RoundsLead label greedy accepts x)
        :: marks m (m.RoundsLead label greedy accepts)

theorem map_fst_marks (m : Matcher) (accepts : Cursor → Prop) :
    (m.marks accepts).map Prod.fst = m.labels := by
  induction m generalizing accepts <;> simp_all [marks, labels]

/-- Whether a record entry agrees with the marks: a visit is lost exactly where they say so. -/
def Agrees (lost : Visit → Prop) (marks : List (Nat × (Cursor → Prop))) : Prop :=
  ∀ label inVain, (label, inVain) ∈ marks → ∀ x : Cursor, lost (x.visit label) ↔ inVain x.bare

/-- Where all labels differ, each has one mark. -/
theorem eq_of_mem_marks {marks : List (Nat × (Cursor → Prop))} (h : (marks.map Prod.fst).Nodup)
    {label : Nat} {p q : Cursor → Prop} (hp : (label, p) ∈ marks) (hq : (label, q) ∈ marks) :
    p = q := by
  induction marks with
  | nil => cases hp
  | cons mark marks ih =>
      rw [List.map_cons, List.nodup_cons] at h
      have fresh : ∀ r, mark = (label, r) → ∀ r', (label, r') ∉ marks := by
        rintro r rfl r' hr'
        exact h.1 (List.mem_map.2 ⟨(label, r'), hr', rfl⟩)
      rcases List.mem_cons.1 hp with hp | hp <;> rcases List.mem_cons.1 hq with hq | hq
      · exact (Prod.mk.inj (hp.trans hq.symm)).2
      · exact absurd hq (fresh p hp.symm q)
      · exact absurd hp (fresh q hq.symm p)
      · exact ih h.2 hp hq

/-- Where all labels differ, there is a `lost` that `Agrees` with the marks. -/
theorem exists_agrees {marks : List (Nat × (Cursor → Prop))} (h : (marks.map Prod.fst).Nodup) :
    ∃ lost, Agrees lost marks := by
  refine ⟨fun v => ∃ p, (v.label, p) ∈ marks ∧ p ⟨v.before, v.rest, v.offset, v.seen, []⟩,
    fun label p hp x => ⟨?_, fun hx => ⟨p, hp, hx⟩⟩⟩
  rintro ⟨q, hq, hx⟩
  exact eq_of_mem_marks h hq hp ▸ hx

/-! ## The record makes no difference -/

/-- A search has the answer `o`, and hands on a record of lost visits only. -/
def Computes (lost : Visit → Prop) (s : Search β) (o : Option β) : Prop :=
  ∀ dead : List Visit, (∀ v ∈ dead, lost v) → (s dead).1 = o ∧ ∀ v ∈ (s dead).2, lost v

theorem computes_fail (lost : Visit → Prop) : Computes lost (.fail : Search β) none :=
  fun _ h => ⟨rfl, h⟩

theorem Computes.orElse {lost : Visit → Prop} {s t : Search β} {o p : Option β}
    (hs : Computes lost s o) (ht : Computes lost t p) : Computes lost (s.orElse t) (o <|> p) := by
  intro dead h
  obtain ⟨ho, hd⟩ := hs dead h
  unfold Search.orElse
  rcases hr : s dead with ⟨_ | r, d⟩ <;> rw [hr] at ho hd
  · obtain rfl : none = o := ho
    simpa using ht d hd
  · obtain rfl : some r = o := ho
    exact ⟨rfl, hd⟩

theorem Computes.noted {lost : Visit → Prop} {v : Visit} {s : Search β} {o : Option β}
    (hs : Computes lost s o) (hv : lost v ↔ o = none) : Computes lost (.noted v s) o := by
  intro dead h
  unfold Search.noted
  by_cases hmem : v ∈ dead
  · simp only [hmem, if_true]
    exact ⟨(hv.1 (h v hmem)).symm, h⟩
  · simp only [hmem, if_false]
    obtain ⟨ho, hd⟩ := hs dead h
    rcases hr : s dead with ⟨_ | r, d⟩ <;> rw [hr] at ho hd
    · exact ⟨ho, fun w hw => (List.mem_cons.1 hw).elim (fun e => e ▸ hv.2 ho.symm) (hd w)⟩
    · exact ⟨ho, hd⟩

theorem searchAgain_of_mem (round : Cursor → (Cursor → Search β) → Search β) {label : Nat}
    (greedy : Bool) (k : Cursor → Search β) (bound : Nat) {x : Cursor} (h : label ∈ x.seen) :
    searchAgain round label greedy k bound x = .fail := by
  cases bound <;> simp [searchAgain, h]

/-- **The record is sound.** `search` with a record that holds only `lost` visits has the answer of
    `first`, and leaves such a record. By the constructors of `Matcher`. -/
theorem search_computes (m : Matcher) {lost : Visit → Prop} {accepts : Cursor → Prop}
    (hlost : Agrees lost (m.marks accepts)) {k : Cursor → Option β} {s : Cursor → Search β}
    (hk : ∀ y, (k y).isSome ↔ accepts y.bare) (x : Cursor)
    (hs : ∀ y, Follows x y → Computes lost (s y) (k y)) :
    Computes lost (m.search x s) (m.first x k) := by
  induction m generalizing accepts k s x with
  | empty => exact hs x (.refl x)
  | set set =>
      rcases h : x.consume? set with _ | y
      · simpa [search, first, h] using computes_fail lost
      · simpa [search, first, h] using hs y (Cursor.follows_of_consume? h)
  | look l =>
      by_cases h : l.holds x.before x.rest.head?
      · simpa [search, first, h] using hs x (.refl x)
      · simpa [search, first, h] using computes_fail lost
  | capture index m ih =>
      exact ih hlost (fun y => hk (y.close index x.offset)) x fun y hy => hs (y.close index x.offset) hy
  | seq a b iha ihb =>
      have ha : Agrees lost (a.marks (b.Leads accepts)) :=
        fun l p h => hlost l p (List.mem_append_left _ h)
      have hb : Agrees lost (b.marks accepts) :=
        fun l p h => hlost l p (List.mem_append_right _ h)
      refine iha ha (fun y => ?_) x fun y hy => ihb hb hk y fun z hz => hs z (hy.trans hz)
      rw [isSome_first_iff b hk, leads_bare]
  | alt label a b iha ihb =>
      have ha : Agrees lost (a.marks accepts) :=
        fun l p h => hlost l p (List.mem_cons_of_mem _ (List.mem_append_left _ h))
      have hb : Agrees lost (b.marks accepts) :=
        fun l p h => hlost l p (List.mem_cons_of_mem _ (List.mem_append_right _ h))
      have hpass : ∀ y, Follows (x.pass label) y → Computes lost (s y) (k y) :=
        fun y hy => hs y ((Cursor.follows_pass x label).trans hy)
      have hvisit : lost (x.visit label) ↔ (alt label a b).first x k = none := by
        rw [hlost label _ (List.mem_cons_self ..) x, leads_bare, ← isSome_first_iff _ hk]
        simp
      by_cases hx : label ∈ x.seen
      · simpa [search, first, hx] using computes_fail lost
      · simp only [first, hx, if_false] at hvisit
        simp only [search, first, hx, if_false]
        exact .noted (.orElse (iha ha hk _ hpass) (ihb hb hk _ hpass)) hvisit
  | plus label greedy m ih =>
      have hm : Agrees lost (m.marks (m.RoundsLead label greedy accepts)) :=
        fun l p h => hlost l p (List.mem_cons_of_mem _ h)
      have hrounds : ∀ y, (m.rounds? label greedy k y).isSome
          ↔ m.RoundsLead label greedy accepts y.bare := by
        intro y
        rw [isSome_rounds?_iff m label greedy hk, roundsLead_bare]
      have rounds : ∀ bound y, y.rest.length < bound →
          (∀ z, Follows y z → Computes lost (s z) (k z)) →
          Computes lost (searchAgain m.search label greedy s bound y)
            (m.rounds? label greedy k y) := by
        intro bound
        induction bound with
        | zero => intro y hy; omega
        | succ bound ihbound =>
            intro y hy hsy
            by_cases hseen : label ∈ y.seen
            · rw [searchAgain_of_mem _ _ _ _ hseen, rounds?_eq, if_pos hseen]
              exact computes_fail lost
            · have hdone : Computes lost (s (y.pass label)) (k (y.pass label)) :=
                hsy _ (Cursor.follows_pass y label)
              have hfurther : Computes lost
                  (m.search (y.pass label) fun z => searchAgain m.search label greedy s bound z)
                  (m.first (y.pass label) (m.rounds? label greedy k)) := by
                refine ih hm hrounds _ fun z hz => ?_
                by_cases hz' : label ∈ z.seen
                · rw [searchAgain_of_mem _ _ _ _ hz', rounds?_eq, if_pos hz']
                  exact computes_fail lost
                · rcases hz with hlt | ⟨_, hsub⟩
                  · have hlt : z.rest.length < y.rest.length := hlt
                    exact ihbound z (by omega) fun w hw => hsy w (.trans (.inl hlt) hw)
                  · exact absurd (hsub (List.mem_cons_self ..)) hz'
              have hvisit : lost (y.visit label) ↔ m.rounds? label greedy k y = none := by
                rw [hlost label _ (List.mem_cons_self ..) y, ← hrounds y]
                simp
              rw [rounds?_eq, if_neg hseen] at hvisit ⊢
              simp only [searchAgain, hseen, if_false]
              cases greedy
              · exact .noted (.orElse hdone hfurther) hvisit
              · exact .noted (.orElse hfurther hdone) hvisit
      rw [first_plus]
      exact ih hm hrounds x fun y hy =>
        rounds _ y (Nat.lt_succ_of_le (Cursor.length_le_of_follows hy)) fun z hz =>
          hs z (hy.trans hz)

/-- `search_computes` from an empty record: `searchAt` finds what `matchAt?` does. -/
theorem exists_computes (m : Matcher) (h : m.labels.Nodup) :
    ∃ lost, ∀ x, Computes lost (m.searchAt x) (m.matchAt? x) := by
  rw [← map_fst_marks m fun _ => True] at h
  obtain ⟨lost, hlost⟩ := exists_agrees h
  exact ⟨lost, fun x =>
    search_computes m hlost (fun _ => by simp) x fun _ _ _ hdead => ⟨rfl, hdead⟩⟩

/-- `searchFrom` has the answer of the search without a record, if the search at each place has. -/
theorem computes_searchFrom {m : Matcher} {lost : Visit → Prop}
    (h : ∀ x, Computes lost (m.searchAt x) (m.matchAt? x)) (before : Option Char) (offset : Nat)
    (t : Text) : Computes lost (m.searchFrom before offset t) (m.findFrom? before offset t) := by
  induction t generalizing before offset with
  | nil => exact h _
  | cons c rest ih => exact (h _).orElse (ih _ _)

end Matcher

/-- `Program.find?` goes by the record, and finds what the matcher finds without one: the leftmost match,
    and the preferred one there. -/
theorem Program.find?_eq (p : Program) (t : Text) : p.find? t = p.matcher.find? t := by
  obtain ⟨lost, h⟩ := p.matcher.exists_computes p.distinct
  exact (Matcher.computes_searchFrom h none 0 t [] (by simp)).1

end Graft.Regex
