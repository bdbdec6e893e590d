import Graft.Regex.Record

/-!
# `Graft.Proofs.Regex.Preferred` — the walk that a match prefers

A match asks the ends of walks in order of preference. What it finds is known as soon as the preferred
walk is known and what comes after accepts its end: `m.Takes x y` says that this walk leads from `x` to
`y`, and `m.Fails x` that no walk leads anywhere. Both are shown part by part.

A loop takes as many rounds as it can (`takes_looped`). That it may start each round rests on what a
walk remembers: labels are forgotten with every character, and a walk passes no labels but its own
(`remembers_of_mem_paths`).
-/

namespace Graft.Regex

theorem CharSet.contains_range_iff {lo hi c : Char} :
    (range lo hi).contains c = true ↔ lo ≤ c ∧ c ≤ hi := by
  simp [contains]

theorem CharSet.contains_char_iff {c d : Char} : (char c).contains d = true ↔ d = c := by
  rw [char, contains_range_iff]
  exact ⟨fun h => Char.le_antisymm h.2 h.1, by rintro rfl; exact ⟨Char.le_refl _, Char.le_refl _⟩⟩

namespace Cursor

variable {x y z : Cursor} {s s' : Text}

/-- Going over the characters `s` leads from `x` to `y`. No group is noted on the way. -/
structure Reads (x : Cursor) (s : Text) (y : Cursor) : Prop where
  rest : x.rest = s ++ y.rest
  before : y.before = s.getLast?.or x.before
  offset : y.offset = x.offset + s.size
  groups : y.groups = x.groups

theorem Reads.trans (h : x.Reads s y) (h' : y.Reads s' z) : x.Reads (s ++ s') z where
  rest := by rw [h.rest, h'.rest, List.append_assoc]
  before := by rw [h'.before, h.before, List.getLast?_append, Option.or_assoc]
  offset := by rw [h'.offset, h.offset, Text.size_append, Nat.add_assoc]
  groups := h'.groups.trans h.groups

theorem reads_pass (x : Cursor) (label : Nat) : x.Reads [] (x.pass label) :=
  ⟨rfl, rfl, rfl, rfl⟩

theorem Reads.length_lt (h : x.Reads s y) (hs : s ≠ []) : y.rest.length < x.rest.length := by
  have := List.length_pos_iff.mpr hs
  rw [h.rest, List.length_append]
  omega

theorem Reads.rest_eq {r : Text} (h : x.Reads s y) (hx : x.rest = s ++ r) : y.rest = r :=
  List.append_cancel_left (h.rest.symm.trans hx)

end Cursor

open Cursor (Reads Follows)

namespace Matcher

variable {m a b : Matcher} {x y z : Cursor}

/-- The preferred walk leads from `x` to `y`: whatever answer comes after it there is the answer. -/
def Takes (m : Matcher) (x y : Cursor) : Prop :=
  ∀ ⦃β : Type⦄ ⦃k : Cursor → Option β⦄ ⦃answer : β⦄,
    k y = some answer → m.first x k = some answer

/-- No walk leads anywhere from `x`. -/
def Fails (m : Matcher) (x : Cursor) : Prop :=
  ∀ ⦃β : Type⦄ (k : Cursor → Option β), m.first x k = none

/-! ## Parts -/

theorem takes_look {l : Look} (h : l.holds x.before x.rest.head? = true) : (look l).Takes x x := by
  intro β k answer hk
  rw [first, if_pos h, hk]

theorem fails_look {l : Look} (h : l.holds x.before x.rest.head? = false) : (look l).Fails x := by
  intro β k
  rw [first, h]
  rfl

theorem takes_empty (x : Cursor) : empty.Takes x x := fun _ _ _ hk => hk

theorem eq_of_mem_look {l : Look} (h : y ∈ (look l).paths x) : y = x := by
  simp only [paths] at h
  split at h
  · exact List.mem_singleton.mp h
  · cases h

/-- `set` goes over a character that it contains, and then no label is remembered. -/
theorem takes_set {s : CharSet} {c : Char} {r : Text} (hx : x.rest = c :: r)
    (hc : s.contains c = true) : ∃ y, (set s).Takes x y ∧ x.Reads [c] y ∧ y.seen = [] := by
  refine ⟨⟨some c, r, x.offset + c.utf8Size, [], x.groups⟩, ?_, ⟨hx, rfl, ?_, rfl⟩, rfl⟩
  · intro β k answer hk
    rw [first, Cursor.consume?, hx]
    simp only [hc, if_true, Option.bind_some, hk]
  · simp

theorem fails_set {s : CharSet} (h : ∀ c, x.rest.head? = some c → s.contains c = false) :
    (set s).Fails x := by
  intro β k
  rw [first, Cursor.consume?]
  cases hx : x.rest with
  | nil => rfl
  | cons c r => simp [h c (by rw [hx]; rfl)]

theorem Takes.capture (h : m.Takes x y) (index : Nat) :
    (capture index m).Takes x (y.close index x.offset) := by
  intro β k answer hk
  rw [first]
  exact h hk

theorem Fails.capture (h : m.Fails x) (index : Nat) : (capture index m).Fails x := by
  intro β k
  rw [first]
  exact h _

/-- Preferred walks are put together as expressions are. With `Fails.seq` this is the step of all that
    follows. -/
theorem Takes.seq (h : a.Takes x y) (h' : b.Takes y z) : (seq a b).Takes x z := by
  intro β k answer hk
  rw [first]
  exact h (h' hk)

theorem Fails.seq (h : a.Fails x) (b : Matcher) : (seq a b).Fails x := by
  intro β k
  rw [first]
  exact h _

/-- `alt` takes its first alternative if that leads anywhere. -/
theorem takes_alt_first {label : Nat} (hseen : label ∉ x.seen) (h : a.Takes (x.pass label) y) :
    (alt label a b).Takes x y := by
  intro β k answer hk
  rw [first, if_neg hseen, h hk]
  rfl

/-- `alt` takes its second alternative where the first one fails. -/
theorem takes_alt_second {label : Nat} (hseen : label ∉ x.seen) (h : a.Fails (x.pass label))
    (h' : b.Takes (x.pass label) y) : (alt label a b).Takes x y := by
  intro β k answer hk
  rw [first, if_neg hseen, h k, h' hk]
  rfl

/-- A loop that must go around once fails where its body does. -/
theorem Fails.plus (h : m.Fails x) (label : Nat) (greedy : Bool) :
    (plus label greedy m).Fails x := by
  intro β k
  rw [first]
  exact h _

/-- A part that may be left out, with the labels from `label` on. -/
def perhaps (label : Nat) (m : Matcher) : Matcher :=
  alt label (seq m empty) empty

/-- An option is taken where it can be. -/
theorem takes_perhaps {label : Nat} (hseen : label ∉ x.seen) (h : m.Takes (x.pass label) y) :
    (perhaps label m).Takes x y :=
  takes_alt_first hseen (h.seq (takes_empty y))

/-- `perhaps` takes nothing only where its part fails. -/
theorem takes_perhaps_none {label : Nat} (hseen : label ∉ x.seen) (h : m.Fails (x.pass label)) :
    (perhaps label m).Takes x (x.pass label) :=
  takes_alt_second hseen (h.seq empty) (takes_empty _)

theorem mem_paths_perhaps {label : Nat} (h : y ∈ (perhaps label m).paths x) :
    y ∈ m.paths (x.pass label) ∨ y = x.pass label := by
  simp only [perhaps, paths, List.flatMap_singleton'] at h
  split at h
  · cases h
  · simpa using h

/-- `seq` fails where its second part fails wherever the first one leads. -/
theorem fails_seq_of_mem_paths (h : ∀ y ∈ a.paths x, b.Fails y) : (seq a b).Fails x := by
  intro β k
  rw [first, first_eq_findSome?, List.findSome?_eq_none_iff]
  exact fun y hy => h y hy k

/-! ## What a walk remembers -/

theorem mem_paths_of_takes (h : m.Takes x y) : y ∈ m.paths x := by
  have hfirst : m.first x some = some y := h rfl
  rw [first_eq_findSome?] at hfirst
  obtain ⟨z, hz, heq⟩ := List.exists_of_findSome?_eq_some hfirst
  exact Option.some.inj heq ▸ hz

/-- Of the labels remembered at `y` those that are not among the given ones come from `x`, and then no
    character lies in between. -/
def Remembers (labels : List Nat) (x y : Cursor) : Prop :=
  ∀ l ∈ y.seen, l ∈ labels ∨ l ∈ x.seen ∧ y.rest.length = x.rest.length

theorem remembers_refl (labels : List Nat) (x : Cursor) : Remembers labels x x :=
  fun _ hl => .inr ⟨hl, rfl⟩

theorem remembers_pass {labels : List Nat} {label : Nat} (h : label ∈ labels) (x : Cursor) :
    Remembers labels x (x.pass label) := by
  intro l hl
  rcases List.mem_cons.mp hl with rfl | hl
  · exact .inl h
  · exact .inr ⟨hl, rfl⟩

theorem Remembers.mono {labels labels' : List Nat} (h : Remembers labels x y)
    (hsub : labels ⊆ labels') : Remembers labels' x y :=
  fun l hl => (h l hl).imp_left fun hmem => hsub hmem

theorem Remembers.trans {labels : List Nat} (h : Remembers labels x y)
    (h' : Remembers labels y z) : Remembers labels x z := by
  intro l hl
  rcases h' l hl with hl | ⟨hl, hlength⟩
  · exact .inl hl
  · exact (h l hl).imp_right fun ⟨hx, hlength'⟩ => ⟨hx, hlength.trans hlength'⟩

/-- The rounds of a loop for `remembers_of_mem_paths`. -/
theorem remembers_of_mem_againPaths {round : Cursor → List Cursor} {labels : List Nat}
    {label : Nat} (hround : ∀ x y, y ∈ round x → Remembers labels x y) (hlabel : label ∈ labels)
    (greedy : Bool) (bound : Nat) (hy : y ∈ againPaths round label greedy bound x) :
    Remembers labels x y := by
  induction bound generalizing x with
  | zero => simp [againPaths] at hy
  | succ bound ih =>
      have hpass := remembers_pass hlabel x
      rcases mem_againPaths_succ hy with ⟨z, hz, hy⟩ | rfl
      · exact (hpass.trans (hround _ _ hz)).trans (ih hy)
      · exact hpass

/-- A path passes no labels but those of its expression, and `Remembers` others only until it goes over a
    character. -/
theorem remembers_of_mem_paths (m : Matcher) (h : y ∈ m.paths x) : Remembers m.labels x y := by
  induction m generalizing x y with
  | empty =>
      obtain rfl := List.mem_singleton.mp h
      exact remembers_refl _ _
  | set s =>
      have hy : x.consume? s = some y := by simpa [paths] using h
      have hnil : y.seen = [] := by
        unfold Cursor.consume? at hy
        split at hy
        · split at hy
          · exact Option.some.inj hy ▸ rfl
          · cases hy
        · cases hy
      intro l hl
      rw [hnil] at hl
      cases hl
  | look l =>
      obtain rfl := eq_of_mem_look h
      exact remembers_refl _ _
  | capture index m ih =>
      obtain ⟨z, hz, rfl⟩ := List.mem_map.mp h
      show Remembers m.labels x z
      exact ih hz
  | seq a b iha ihb =>
      obtain ⟨z, hz, h⟩ := List.mem_flatMap.mp h
      exact ((iha hz).mono (List.subset_append_left _ _)).trans
        ((ihb h).mono (List.subset_append_right _ _))
  | alt label a b iha ihb =>
      simp only [paths] at h
      split at h
      · cases h
      · have hpass : Remembers (alt label a b).labels x (x.pass label) :=
          remembers_pass (List.mem_cons_self ..) x
        rcases List.mem_append.mp h with h | h
        · exact hpass.trans ((iha h).mono (List.subset_cons_of_subset _ (List.subset_append_left _ _)))
        · exact hpass.trans ((ihb h).mono (List.subset_cons_of_subset _ (List.subset_append_right _ _)))
  | plus label greedy m ih =>
      obtain ⟨z, hz, h⟩ := List.mem_flatMap.mp h
      have hround : ∀ x y, y ∈ m.paths x → Remembers (plus label greedy m).labels x y :=
        fun x y hy => (ih hy).mono (List.subset_cons_self _ _)
      exact (hround x z hz).trans
        (remembers_of_mem_againPaths hround (List.mem_cons_self ..) greedy _ h)

/-- Going over a character clears what was seen, so that a loop around the expression may go on. -/
theorem not_mem_seen_of_takes {s : Text} {label : Nat} (h : m.Takes x y) (hread : x.Reads s y)
    (hs : s ≠ []) (hlabel : label ∉ m.labels) : label ∉ y.seen := by
  intro hl
  rcases remembers_of_mem_paths m (mem_paths_of_takes h) label hl with hl | ⟨-, hlength⟩
  · exact hlabel hl
  · have := hread.length_lt hs
    omega

/-! ## Loops -/

/-- Wherever `s` comes next, with a text of the given kind behind it, the preferred walk goes over
    `s`. -/
def Accepts (m : Matcher) (Next : Text → Prop) (s : Text) : Prop :=
  ∀ x r, x.rest = s ++ r → Next r → ∃ y, m.Takes x y ∧ x.Reads s y

/-- As many rounds as possible, perhaps none, with the labels from `label` on. -/
def looped (label : Nat) (m : Matcher) : Matcher :=
  alt label (plus (label + 1) true m) empty

variable {label : Nat} {Next : Text → Prop} {pieces : List Text} {more : Text}

/-- What a loop is to go over, piece by piece: each of them is accepted where another one comes next,
    and what comes last is not the start of one more. -/
structure Pieces (m : Matcher) (Next : Text → Prop) (pieces : List Text) (more : Text) : Prop where
  ne_nil : ∀ p ∈ pieces, p ≠ []
  accepts : ∀ p ∈ pieces, m.Accepts Next p
  next : ∀ p ∈ pieces, ∀ r, Next (p ++ r)
  last : Next more
  fails : ∀ x, x.rest = more → m.Fails x

theorem Pieces.tail {p : Text} (h : Pieces m Next (p :: pieces) more) :
    Pieces m Next pieces more where
  ne_nil := fun q hq => h.ne_nil q (List.mem_cons_of_mem _ hq)
  accepts := fun q hq => h.accepts q (List.mem_cons_of_mem _ hq)
  next := fun q hq => h.next q (List.mem_cons_of_mem _ hq)
  last := h.last
  fails := h.fails

theorem Pieces.next_flatten (h : Pieces m Next pieces more) : Next (pieces.flatten ++ more) := by
  cases pieces with
  | nil => exact h.last
  | cons p others =>
      rw [List.flatten_cons, List.append_assoc]
      exact h.next p (List.mem_cons_self ..) _

/-- One round goes over the first of the `Pieces`, and leaves the loop able to go on, by
    `not_mem_seen_of_takes`. -/
theorem Pieces.takes_first {p : Text} (h : Pieces m Next (p :: pieces) more)
    (hlabel : label ∉ m.labels) (hx : x.rest = (p :: pieces).flatten ++ more) :
    ∃ y, m.Takes x y ∧ x.Reads p y ∧ y.rest = pieces.flatten ++ more ∧ label ∉ y.seen := by
  have hx : x.rest = p ++ (pieces.flatten ++ more) := by rw [hx, List.flatten_cons, List.append_assoc]
  obtain ⟨y, htakes, hread⟩ := h.accepts p (List.mem_cons_self ..) x _ hx h.tail.next_flatten
  have hne := h.ne_nil p (List.mem_cons_self ..)
  exact ⟨y, htakes, hread, hread.rest_eq hx, not_mem_seen_of_takes htakes hread hne hlabel⟩

/-- A loop goes on for as long as there are `Pieces`, and ends where a round fails. By induction on the
    pieces. -/
theorem Pieces.takes_rounds (h : Pieces m Next pieces more) (hlabel : label ∉ m.labels)
    (hx : x.rest = pieces.flatten ++ more) (hseen : label ∉ x.seen) :
    ∃ y, x.Reads pieces.flatten y ∧ ∀ ⦃β : Type⦄ ⦃k : Cursor → Option β⦄ ⦃answer : β⦄,
      k y = some answer → m.rounds? label true k x = some answer := by
  induction pieces generalizing x with
  | nil =>
      refine ⟨x.pass label, Cursor.reads_pass x label, ?_⟩
      intro β k answer hk
      have hround : m.first (x.pass label) (m.rounds? label true k) = none :=
        h.fails (x.pass label) hx _
      rw [rounds?_eq, if_neg hseen, if_pos rfl, hround, hk]
      rfl
  | cons p others ih =>
      have hpass : (x.pass label).rest = (p :: others).flatten ++ more := hx
      obtain ⟨z, htakes, hread, hz, hseen'⟩ := h.takes_first hlabel hpass
      obtain ⟨y, hread', hrounds⟩ := ih h.tail hz hseen'
      refine ⟨y, (Cursor.reads_pass x label).trans (hread.trans hread'), ?_⟩
      intro β k answer hk
      rw [rounds?_eq, if_neg hseen, if_pos rfl, htakes (hrounds hk)]
      rfl

/-- `plus` goes over all the `Pieces`, if there are any. -/
theorem Pieces.takes_plus {p : Text} (h : Pieces m Next (p :: pieces) more) (hlabel : label ∉ m.labels)
    (hx : x.rest = (p :: pieces).flatten ++ more) :
    ∃ y, (plus label true m).Takes x y ∧ x.Reads (p :: pieces).flatten y := by
  obtain ⟨z, htakes, hread, hz, hseen⟩ := h.takes_first hlabel hx
  obtain ⟨y, hread', hrounds⟩ := h.tail.takes_rounds hlabel hz hseen
  refine ⟨y, ?_, hread.trans hread'⟩
  intro β k answer hk
  rw [first_plus]
  exact htakes (hrounds hk)

/-- A loop goes over all of its `Pieces` and no further. By induction on them. -/
theorem Pieces.takes_looped (h : Pieces m Next pieces more) (hlabel : label + 1 ∉ m.labels)
    (hx : x.rest = pieces.flatten ++ more) (hseen : label ∉ x.seen) :
    ∃ y, (looped label m).Takes x y ∧ x.Reads pieces.flatten y := by
  have hpass := Cursor.reads_pass x label
  cases pieces with
  | nil =>
      have hplus : (plus (label + 1) true m).Fails (x.pass label) := (h.fails (x.pass label) hx).plus _ _
      exact ⟨x.pass label, takes_alt_second hseen hplus (takes_empty _), hpass⟩
  | cons p others =>
      obtain ⟨y, htakes, hread⟩ := h.takes_plus hlabel (x := x.pass label) hx
      exact ⟨y, takes_alt_first hseen htakes, hpass.trans hread⟩

/-! ## Runs of characters -/

/-- Characters of a set are the `Pieces` of a loop over it, one by one, until another one comes. -/
theorem pieces_set {s : CharSet} {run more : Text} (hrun : ∀ c ∈ run, s.contains c = true)
    (hmore : ∀ c, more.head? = some c → s.contains c = false) :
    Pieces (set s) (fun _ => True) (run.map ([·])) more := by
  refine ⟨?_, ?_, fun _ _ _ => trivial, trivial, ?_⟩
  · simp
  · intro p hp x r hx _
    obtain ⟨c, hc, rfl⟩ := List.mem_map.mp hp
    obtain ⟨y, htakes, hread, -⟩ := takes_set hx (hrun c hc)
    exact ⟨y, htakes, hread⟩
  · intro x hx
    exact fails_set (hx ▸ hmore)

theorem flatten_map_singleton (run : Text) : (run.map ([·])).flatten = run := by
  rw [← List.flatMap_def, List.flatMap_singleton']

/-- A loop over a set `Takes` all characters of the set that come next. -/
theorem takes_looped_set {s : CharSet} {run more : Text} (hrun : ∀ c ∈ run, s.contains c = true)
    (hmore : ∀ c, more.head? = some c → s.contains c = false) (hx : x.rest = run ++ more)
    (hseen : label ∉ x.seen) : ∃ y, (looped label (set s)).Takes x y ∧ x.Reads run y := by
  have htakes : ∃ y, (looped label (set s)).Takes x y ∧ x.Reads (run.map ([·])).flatten y :=
    (pieces_set hrun hmore).takes_looped (by simp [labels])
      (by rw [flatten_map_singleton, hx]) hseen
  rwa [flatten_map_singleton] at htakes

/-- So does `plus`, if there is such a character. -/
theorem takes_plus_set {s : CharSet} {run more : Text} (hne : run ≠ [])
    (hrun : ∀ c ∈ run, s.contains c = true)
    (hmore : ∀ c, more.head? = some c → s.contains c = false) (hx : x.rest = run ++ more) :
    ∃ y, (plus label true (set s)).Takes x y ∧ x.Reads run y := by
  obtain ⟨c, others, rfl⟩ := List.exists_cons_of_ne_nil hne
  have hflat := flatten_map_singleton (c :: others)
  have htakes : ∃ y, (plus label true (set s)).Takes x y ∧
      x.Reads ((c :: others).map ([·])).flatten y :=
    (pieces_set hrun hmore).takes_plus (by simp [labels]) (hx.trans (congrArg (· ++ more) hflat.symm))
  rwa [hflat] at htakes

theorem exists_reads_of_consume? {s : CharSet} (h : x.consume? s = some y) :
    ∃ c, s.contains c = true ∧ x.Reads [c] y := by
  unfold Cursor.consume? at h
  split at h
  next c rest hrest =>
    split at h
    next hc =>
      obtain rfl := Option.some.inj h
      exact ⟨c, hc, hrest, rfl, by simp, rfl⟩
    · cases h
  · cases h

/-- However far a loop over a set goes, it `Reads` characters of the set. -/
theorem exists_run_of_mem_againPaths {s : CharSet} {label bound : Nat} {greedy : Bool}
    (hy : y ∈ againPaths (set s).paths label greedy bound x) :
    ∃ run, (∀ c ∈ run, s.contains c = true) ∧ x.Reads run y := by
  induction bound generalizing x with
  | zero => simp [againPaths] at hy
  | succ bound ih =>
      have hpass := Cursor.reads_pass x label
      rcases mem_againPaths_succ hy with ⟨z, hz, hy⟩ | rfl
      · obtain ⟨c, hc, hread⟩ := exists_reads_of_consume? (by simpa [paths] using hz)
        obtain ⟨run, hrun, hread'⟩ := ih hy
        exact ⟨c :: run, List.forall_mem_cons.mpr ⟨hc, hrun⟩, hpass.trans (hread.trans hread')⟩
      · exact ⟨[], by simp, hpass⟩

/-- A loop of one set goes over a run of its characters, whichever walk is taken. -/
theorem exists_run_of_mem_looped {s : CharSet} (hy : y ∈ (looped label (set s)).paths x) :
    ∃ run, (∀ c ∈ run, s.contains c = true) ∧ x.Reads run y := by
  have hpass := Cursor.reads_pass x label
  simp only [looped, paths] at hy
  split at hy
  · cases hy
  rcases List.mem_append.mp hy with hy | hy
  · obtain ⟨z, hz, hy⟩ := List.mem_flatMap.mp hy
    obtain ⟨c, hc, hread⟩ := exists_reads_of_consume? (by simpa using hz)
    obtain ⟨run, hrun, hread'⟩ := exists_run_of_mem_againPaths hy
    exact ⟨c :: run, List.forall_mem_cons.mpr ⟨hc, hrun⟩, hpass.trans (hread.trans hread')⟩
  · obtain rfl := List.mem_singleton.mp hy
    exact ⟨[], by simp, hpass⟩

/-! ## Matches -/

/-- What an expression `Takes` from the start of a text is what is found in it. -/
theorem find?_of_takes {t : Text} (h : m.Takes (.start t) y) :
    m.find? t = some ⟨⟨0, y.offset⟩, y.groups⟩ := by
  have hfirst : m.matchAt? (.start t) = some ⟨⟨0, y.offset⟩, y.groups⟩ := h rfl
  cases t with
  | nil => exact hfirst
  | cons c rest =>
      rw [find?, findFrom?]
      show (m.matchAt? (.start (c :: rest)) <|> _) = _
      rw [hfirst]
      rfl

/-- `find?` is `matchAt?` at the start of a text, if the expression `Fails` behind every character. -/
theorem find?_eq_matchAt? {t : Text} (hlater : ∀ x : Cursor, x.before.isSome = true → m.Fails x) :
    m.find? t = m.matchAt? (.start t) := by
  have hfrom (c : Char) (offset : Nat) (rest : Text) : m.findFrom? (some c) offset rest = none := by
    induction rest generalizing c offset with
    | nil => exact hlater _ rfl _
    | cons d rest ih =>
        have hat : m.matchAt? ⟨some c, d :: rest, offset, [], []⟩ = none := hlater _ rfl _
        rw [findFrom?, hat, ih]
        rfl
  cases t with
  | nil => rfl
  | cons c rest =>
      rw [find?, findFrom?, hfrom]
      show (m.matchAt? (.start (c :: rest)) <|> none) = _
      cases m.matchAt? (.start (c :: rest)) <;> rfl

/-- `find?` finds nothing if the expression `Fails` at the start of a text and behind every character. -/
theorem find?_of_fails {t : Text} (h : m.Fails (.start t))
    (hlater : ∀ x : Cursor, x.before.isSome = true → m.Fails x) : m.find? t = none := by
  rw [find?_eq_matchAt? hlater]
  exact h _

end Matcher

end Graft.Regex
