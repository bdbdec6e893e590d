import Graft.Span
import Graft.Text.Basic

/-!
# `Graft.Proofs.Text.Cut` — cutting texts in pieces

Every fact about positions goes back to one picture: a text can be cut at `p` exactly when it is two
texts put together of which the first has `p` bytes (`isBoundary_iff`). A slice is then the middle one
of three texts (`slice?_eq_some_iff`), which exists for two cuts in order (`isSome_slice?_iff`), and
slices that meet can be put together (`slice?_append`). The first occurrence of a character in a slice
is told by the text in front of it (`firstOccurrence_iff`). `Span.Within` is said of the ranges that
slices fill.
-/

namespace Graft

namespace Text

/-! ## Sizes -/

theorem size_eq_zero_iff {t : Text} : size t = 0 ↔ t = [] := by
  cases t with
  | nil => simp
  | cons c cs =>
      have := c.utf8Size_pos
      simp only [size_cons, reduceCtorEq, iff_false]
      omega

/-- Two ways of splitting a text after the same `size` are one. -/
theorem append_inj_of_size {s s' r r' : Text} (h : s ++ r = s' ++ r') (hs : size s = size s') :
    s = s' ∧ r = r' := by
  have hr : r = r' := by
    have := from?_size_append s r
    rw [h, hs, from?_size_append] at this
    exact (Option.some.inj this).symm
  exact ⟨List.append_cancel_right (hr ▸ h), hr⟩

/-! ## Where a text can be cut -/

/-- `isBoundary` as an equation between texts, which is how the lemmas below use it. -/
theorem isBoundary_iff {t : Text} {p : Nat} :
    t.isBoundary p = true ↔ ∃ s r, t = s ++ r ∧ size s = p := by
  rw [isBoundary, Option.isSome_iff_exists]
  constructor
  · rintro ⟨r, h⟩
    obtain ⟨s, rfl, hs⟩ := exists_of_from? h
    exact ⟨s, r, rfl, hs⟩
  · rintro ⟨s, r, rfl, rfl⟩
    exact ⟨r, from?_size_append s r⟩

theorem isBoundary_size_append (s r : Text) : (s ++ r).isBoundary (size s) = true :=
  isBoundary_iff.mpr ⟨s, r, rfl, rfl⟩

@[simp] theorem isBoundary_zero (t : Text) : t.isBoundary 0 = true :=
  isBoundary_size_append [] t

@[simp] theorem isBoundary_size (t : Text) : t.isBoundary t.size = true :=
  isBoundary_iff.mpr ⟨t, [], by simp, rfl⟩

theorem le_size_of_isBoundary {t : Text} {p : Nat} (h : t.isBoundary p = true) : p ≤ t.size := by
  obtain ⟨s, r, rfl, rfl⟩ := isBoundary_iff.mp h
  simp

theorem isBoundary_of_from? {t r : Text} {p : Nat} (h : t.from? p = some r) :
    t.isBoundary p = true := by
  rw [isBoundary, h]
  rfl

/-- Cuts of what `from?` leaves are cuts of the text. -/
theorem isBoundary_add {t r : Text} {p : Nat} (h : t.from? p = some r) (q : Nat) :
    t.isBoundary (p + q) = r.isBoundary q := by
  obtain ⟨s, rfl, rfl⟩ := exists_of_from? h
  rw [Bool.eq_iff_iff, isBoundary_iff, isBoundary_iff]
  constructor
  · rintro ⟨a, b, hab, ha⟩
    -- what stands before the cut goes beyond `s`, for it has at least as many bytes
    obtain ⟨m, rfl⟩ : ∃ m, a = s ++ m := by
      rcases List.append_eq_append_iff.mp hab with ⟨m, rfl, -⟩ | ⟨m, rfl, hb⟩
      · exact ⟨m, rfl⟩
      · refine ⟨[], ?_⟩
        have : m = [] := size_eq_zero_iff.mp (by simp at ha; omega)
        simp [this]
    have hr : r = m ++ b := by simpa using hab
    refine ⟨m, b, hr, ?_⟩
    simp at ha
    omega
  · rintro ⟨a, b, rfl, rfl⟩
    exact ⟨s ++ a, b, by simp, by simp⟩

/-- Two cuts in a row: `from?` after `from?` adds up the positions. -/
theorem from?_add {t r : Text} {p : Nat} (h : t.from? p = some r) (q : Nat) :
    t.from? (p + q) = r.from? q := by
  rcases hq : r.from? q with _ | r'
  · have := isBoundary_add h q
    simpa [isBoundary, hq] using this
  · obtain ⟨s, rfl, rfl⟩ := exists_of_from? h
    obtain ⟨m, rfl, rfl⟩ := exists_of_from? hq
    exact from?_eq_some_iff.mpr ⟨s ++ m, by simp, by simp⟩

theorem from?_add_size {t s r : Text} {p : Nat} (h : t.from? p = some (s ++ r)) :
    t.from? (p + s.size) = some r := by
  rw [from?_add h, from?_size_append]

/-! ## Slices -/

@[simp] theorem upTo?_zero (t : Text) : upTo? t 0 = some [] := by
  cases t <;> simp [upTo?]

@[simp] theorem upTo?_size_append (s r : Text) : upTo? (s ++ r) (size s) = some s := by
  induction s with
  | nil => simp
  | cons c cs ih =>
      have := c.utf8Size_pos
      simp only [List.cons_append, size_cons, upTo?]
      rw [if_neg (by omega), if_pos (by omega), Nat.add_sub_cancel_left, ih]
      rfl

/-- `upTo?` as an equation between texts. -/
theorem upTo?_eq_some_iff {t s : Text} {p : Nat} :
    upTo? t p = some s ↔ ∃ r, t = s ++ r ∧ size s = p := by
  constructor
  · intro h
    induction t generalizing p s with
    | nil =>
        by_cases hp : p = 0
        · subst hp
          simp at h
          exact ⟨[], by simp [h]⟩
        · simp [upTo?, hp] at h
    | cons c cs ih =>
        by_cases hp : p = 0
        · subst hp
          simp at h
          exact ⟨c :: cs, by simp [h]⟩
        · by_cases hw : c.utf8Size ≤ p
          · simp only [upTo?, hp, hw, if_true, if_false, Option.map_eq_some_iff] at h
            obtain ⟨a, ha, rfl⟩ := h
            obtain ⟨r, rfl, hs⟩ := ih ha
            exact ⟨r, rfl, by simp [hs]; omega⟩
          · simp [upTo?, hp, hw] at h
  · rintro ⟨r, rfl, rfl⟩
    exact upTo?_size_append s r

/-- `slice?` as an equation between texts: the slice is the middle one of three. The facts about slices
    follow from this one and `append_inj_of_size`. -/
theorem slice?_eq_some_iff {t m : Text} {a b : Nat} :
    t.slice? a b = some m ↔ ∃ s r, t = s ++ (m ++ r) ∧ size s = a ∧ a + size m = b := by
  constructor
  · intro h
    unfold slice? at h
    split at h
    next hle =>
      obtain ⟨rest, hrest, hm⟩ := Option.bind_eq_some_iff.mp h
      obtain ⟨s, rfl, hs⟩ := exists_of_from? hrest
      obtain ⟨r, rfl, hsize⟩ := upTo?_eq_some_iff.mp hm
      exact ⟨s, r, rfl, hs, by omega⟩
    next => cases h
  · rintro ⟨s, r, rfl, rfl, rfl⟩
    rw [slice?, if_pos (Nat.le_add_right _ _), from?_size_append, Option.bind_some,
      Nat.add_sub_cancel_left, upTo?_size_append]

/-- When there is a `slice?`: the positions are in order and the text can be cut at both. -/
theorem isSome_slice?_iff {t : Text} {a b : Nat} :
    (t.slice? a b).isSome = true ↔ a ≤ b ∧ t.isBoundary a = true ∧ t.isBoundary b = true := by
  constructor
  · intro h
    obtain ⟨m, hm⟩ := Option.isSome_iff_exists.mp h
    obtain ⟨s, r, rfl, rfl, rfl⟩ := slice?_eq_some_iff.mp hm
    refine ⟨Nat.le_add_right _ _, isBoundary_size_append _ _, ?_⟩
    have := isBoundary_size_append (s ++ m) r
    simpa using this
  · rintro ⟨hle, ha, hb⟩
    obtain ⟨rest, hrest⟩ := Option.isSome_iff_exists.mp ha
    obtain ⟨q, rfl⟩ := Nat.exists_eq_add_of_le hle
    rw [isBoundary_add hrest] at hb
    obtain ⟨m, r, rfl, rfl⟩ := isBoundary_iff.mp hb
    obtain ⟨s, rfl, rfl⟩ := exists_of_from? hrest
    rw [slice?_eq_some_iff.mpr ⟨s, r, rfl, rfl, rfl⟩]
    rfl

/-- Between two cuts in order there is a `slice?`. -/
theorem exists_slice? {t : Text} {a b : Nat} (hle : a ≤ b) (ha : t.isBoundary a = true)
    (hb : t.isBoundary b = true) : ∃ m, t.slice? a b = some m :=
  Option.isSome_iff_exists.mp (isSome_slice?_iff.mpr ⟨hle, ha, hb⟩)

@[simp] theorem slice?_self {t : Text} {a : Nat} (h : t.isBoundary a = true) :
    t.slice? a a = some [] := by
  obtain ⟨s, r, rfl, rfl⟩ := isBoundary_iff.mp h
  exact slice?_eq_some_iff.mpr ⟨s, r, rfl, rfl, rfl⟩

/-- A `slice?` up to a position and one from there on make one. -/
theorem slice?_append {t m n : Text} {a b c : Nat} (h : t.slice? a b = some m)
    (h' : t.slice? b c = some n) : t.slice? a c = some (m ++ n) := by
  obtain ⟨s, r, rfl, rfl, rfl⟩ := slice?_eq_some_iff.mp h
  obtain ⟨s', r', heq, hs', rfl⟩ := slice?_eq_some_iff.mp h'
  -- both slices split the text at `b`
  obtain ⟨rfl, rfl⟩ : s ++ m = s' ∧ r = n ++ r' :=
    append_inj_of_size (by simpa using heq) (by simp [hs'])
  exact slice?_eq_some_iff.mpr ⟨s, r', by simp, rfl, by simp [Nat.add_assoc]⟩

/-- A slice is as long as the distance of its ends. -/
theorem size_of_slice? {t m : Text} {a b : Nat} (h : t.slice? a b = some m) :
    a + size m = b := by
  obtain ⟨s, r, -, -, hb⟩ := slice?_eq_some_iff.mp h
  exact hb

/-- Where `isBoundary` fails within a text, the position lies inside a character. -/
theorem exists_char_of_not_isBoundary {t : Text} {p : Nat} (hsize : p ≤ t.size)
    (h : t.isBoundary p = false) :
    ∃ s c r, t = s ++ c :: r ∧ size s < p ∧ p < size s + c.utf8Size := by
  induction t generalizing p with
  | nil =>
      obtain rfl : p = 0 := Nat.le_zero.mp hsize
      simp at h
  | cons c cs ih =>
      have hpos : p ≠ 0 := by
        rintro rfl
        simp at h
      by_cases hwidth : c.utf8Size ≤ p
      · obtain ⟨q, rfl⟩ := Nat.exists_eq_add_of_le hwidth
        have hc : from? (c :: cs) c.utf8Size = some cs := by
          simpa using from?_size_append [c] cs
        rw [isBoundary_add hc] at h
        obtain ⟨s, d, r, rfl, hlt, hlt'⟩ := ih (by rw [size_cons] at hsize; omega) h
        refine ⟨c :: s, d, r, rfl, ?_, ?_⟩ <;> rw [size_cons] <;> omega
      · exact ⟨[], c, cs, rfl, by rw [size_nil]; omega, by rw [size_nil]; omega⟩

/-! ## The nearest cut before a position -/

/-- `floorBoundary` of any position is a cut, so that what is sliced there exists. -/
theorem isBoundary_floorBoundary (t : Text) (p : Nat) :
    t.isBoundary (t.floorBoundary p) = true := by
  induction t generalizing p with
  | nil => simp [floorBoundary]
  | cons c cs ih =>
      unfold floorBoundary
      split
      · have hc : from? (c :: cs) c.utf8Size = some cs := by
          simpa using from?_size_append [c] cs
        rw [isBoundary_add hc]
        exact ih _
      · simp

theorem floorBoundary_le (t : Text) (p : Nat) : t.floorBoundary p ≤ p := by
  induction t generalizing p with
  | nil => simp [floorBoundary]
  | cons c cs ih =>
      have := ih (p - c.utf8Size)
      unfold floorBoundary
      split <;> omega

/-- `floorBoundary` leaves cuts as they are. -/
theorem floorBoundary_of_isBoundary {t : Text} {p : Nat} (h : t.isBoundary p = true) :
    t.floorBoundary p = p := by
  obtain ⟨s, r, rfl, rfl⟩ := isBoundary_iff.mp h
  induction s with
  | nil =>
      have := floorBoundary_le r 0
      simpa using this
  | cons c cs ih =>
      simp only [List.cons_append, floorBoundary, size_cons]
      rw [if_pos (by omega), Nat.add_sub_cancel_left, ih (isBoundary_size_append cs r)]

/-! ## The first occurrence of a character -/

/-- `find?` as an equation between texts: the character stands behind a text that does not hold it. -/
theorem find?_eq_some_iff {c : Char} {t : Text} {n : Nat} :
    find? c t = some n ↔ ∃ s r, t = s ++ c :: r ∧ c ∉ s ∧ size s = n := by
  induction t generalizing n with
  | nil => simp [find?]
  | cons d ds ih =>
      unfold find?
      by_cases hd : d = c
      · subst hd
        rw [if_pos rfl]
        constructor
        · intro h
          exact ⟨[], ds, rfl, by simp, Option.some.inj h⟩
        · rintro ⟨s, r, heq, hs, rfl⟩
          cases s with
          | nil => rfl
          | cons e s =>
              obtain ⟨rfl, -⟩ := List.cons.inj heq
              simp at hs
      · rw [if_neg hd, Option.map_eq_some_iff]
        constructor
        · rintro ⟨k, hk, rfl⟩
          obtain ⟨s, r, rfl, hs, rfl⟩ := ih.mp hk
          exact ⟨d :: s, r, rfl, by simp [Ne.symm hd, hs], rfl⟩
        · rintro ⟨s, r, heq, hs, rfl⟩
          cases s with
          | nil => exact absurd (List.cons.inj heq).1 hd
          | cons e s =>
              obtain ⟨rfl, rfl⟩ := List.cons.inj heq
              have hs' : c ∉ s := fun hmem => hs (List.mem_cons_of_mem d hmem)
              exact ⟨size s, ih.mpr ⟨s, r, rfl, hs', rfl⟩, rfl⟩

/-- The first occurrence of a character from a position on, within a limit, and the text before it. -/
structure FirstOccurrence (t : Text) (c : Char) (start limit p : Nat) (before : Text) : Prop where
  text : t.slice? start p = some before
  plain : c ∉ before
  here : t.slice? p (p + c.utf8Size) = some [c]
  le_limit : p + c.utf8Size ≤ limit

section

variable {t before region : Text} {c : Char} {start limit p : Nat}

/-- `FirstOccurrence` in terms of the `slice?` that is searched: it begins with the text before the
    occurrence, and the character is next. -/
theorem firstOccurrence_iff (hregion : t.slice? start limit = some region) :
    t.FirstOccurrence c start limit p before ↔
      c ∉ before ∧ start + before.size = p ∧ ∃ after, region = before ++ c :: after := by
  constructor
  · intro h
    obtain ⟨-, -, hlimit⟩ := isSome_slice?_iff.mp (Option.isSome_of_eq_some hregion)
    obtain ⟨-, -, hbehind⟩ := isSome_slice?_iff.mp (Option.isSome_of_eq_some h.here)
    obtain ⟨after, hafter⟩ := exists_slice? h.le_limit hbehind hlimit
    have hsplit := slice?_append h.text (slice?_append h.here hafter)
    exact ⟨h.plain, size_of_slice? h.text, after, Option.some.inj (hregion.symm.trans hsplit)⟩
  · rintro ⟨hplain, rfl, after, rfl⟩
    obtain ⟨s, r, rfl, rfl, rfl⟩ := slice?_eq_some_iff.mp hregion
    refine ⟨?_, hplain, ?_, ?_⟩
    · apply slice?_eq_some_iff.mpr
      exact ⟨s, c :: after ++ r, by simp, rfl, rfl⟩
    · apply slice?_eq_some_iff.mpr
      exact ⟨s ++ before, after ++ r, by simp, by simp, by simp⟩
    · simp only [size_append, size_cons]
      omega

/-- The cuts that a `FirstOccurrence` makes: where the search begins, in front of the character and behind
    it. -/
theorem FirstOccurrence.cuts (h : t.FirstOccurrence c start limit p before) :
    start ≤ p ∧ t.isBoundary start = true ∧ t.isBoundary p = true ∧
      t.isBoundary (p + c.utf8Size) = true := by
  obtain ⟨hle, hstart, hp⟩ := isSome_slice?_iff.mp (Option.isSome_of_eq_some h.text)
  obtain ⟨-, -, hbehind⟩ := isSome_slice?_iff.mp (Option.isSome_of_eq_some h.here)
  exact ⟨hle, hstart, hp, hbehind⟩

end

end Text

/-! ## Ranges -/

/-- A range of a text between two positions, in order and with a cut at both ends. -/
structure Span.Within (t : Text) (lo hi : Nat) (s : Span) : Prop where
  le_start : lo ≤ s.start
  start_le_stop : s.start ≤ s.stop
  stop_le : s.stop ≤ hi
  start_boundary : t.isBoundary s.start = true
  stop_boundary : t.isBoundary s.stop = true

theorem Span.Within.mono {t : Text} {lo lo' hi hi' : Nat} {s : Span} (h : s.Within t lo hi)
    (hlo : lo' ≤ lo) (hhi : hi ≤ hi') : s.Within t lo' hi' :=
  ⟨Nat.le_trans hlo h.le_start, h.start_le_stop, Nat.le_trans h.stop_le hhi, h.start_boundary,
    h.stop_boundary⟩

end Graft
