import Graft.Proofs.Regex.Captures
import Graft.Proofs.Regex.Preferred

/-!
# `Graft.Proofs.Regex.Begin` — how matches begin

An expression that is held to the start of a text, passes over white space and then notes its first
group, finds that group right behind the white space (`exists_of_find?_behindBlanks`). What the group
begins with is told by the expression in it, part by part (`Matcher.Begins`).

The other way round, what is found is known where all the white space that comes first is told apart from
what stands behind it: the body is then tried in one place only. It is found there
(`find?_behindBlanks`), or nothing is found at all (`find?_behindBlanks_none`).
-/

namespace Graft.Regex

namespace Cursor

variable {t : Text} {indices : List Nat} {x y : Cursor}

/-- `Reads` leads from one place of a text to another. -/
theorem Reads.on {s : Text} (h : x.Reads s y) (hx : x.On t) : y.On t := by
  have hrest : Text.from? x.rest s.size = some y.rest := by
    rw [h.rest]
    exact Text.from?_size_append s y.rest
  rw [On, h.offset, Text.from?_add hx]
  exact hrest

end Cursor

namespace Matcher

/-! ## The first character -/

/-- Every walk through the expression goes over a character of some kind first. -/
def Begins (P : Char → Prop) (m : Matcher) : Prop :=
  ∀ ⦃t : Text⦄ ⦃x y : Cursor⦄, x.On t → y ∈ m.paths x →
    ∃ c more, x.rest = c :: more ∧ P c ∧ x.offset < y.offset

variable {P : Char → Prop} {a b m : Matcher}

theorem begins_set {s : CharSet} (h : ∀ c, s.contains c = true → P c) : (set s).Begins P := by
  intro t x y _ hy
  obtain ⟨c, hc, hread⟩ := exists_reads_of_consume? (by simpa [paths] using hy)
  refine ⟨c, y.rest, hread.rest, h c hc, ?_⟩
  have := c.utf8Size_pos
  rw [hread.offset]
  simpa using this

theorem Begins.capture (h : m.Begins P) (index : Nat) : (capture index m).Begins P := by
  intro t x y hx hy
  obtain ⟨z, hz, rfl⟩ := List.mem_map.mp hy
  exact h (y := z) hx hz

/-- What comes behind the first part makes no difference. -/
theorem Begins.seq (h : a.Begins P) (b : Matcher) : (seq a b).Begins P := by
  intro t x y hx hy
  obtain ⟨z, hz, hy⟩ := List.mem_flatMap.mp hy
  obtain ⟨c, more, hrest, hc, hlt⟩ := h hx hz
  have hle := (reaches_of_mem_paths b (reaches_of_mem_paths a hx hz).on hy).le
  exact ⟨c, more, hrest, hc, Nat.lt_of_lt_of_le hlt hle⟩

/-- Both alternatives must begin with such a character. -/
theorem Begins.alt (h : a.Begins P) (h' : b.Begins P) (label : Nat) :
    (alt label a b).Begins P := by
  intro t x y hx hy
  simp only [paths] at hy
  split at hy
  · cases hy
  rcases List.mem_append.mp hy with hy | hy
  · exact h (x := x.pass label) hx hy
  · exact h' (x := x.pass label) hx hy

/-- A part that may be left out `Begins` as what comes after it does, if it is. -/
theorem Begins.opt (h : a.Begins P) (h' : b.Begins P) (label : Nat) :
    (Matcher.seq (Matcher.alt label a empty) b).Begins P := by
  intro t x y hx hy
  obtain ⟨z, hz, hy⟩ := List.mem_flatMap.mp hy
  simp only [paths] at hz
  split at hz
  · cases hz
  rcases List.mem_append.mp hz with hz | hz
  · obtain ⟨c, more, hrest, hc, hlt⟩ := h (x := x.pass label) hx hz
    have hle := (reaches_of_mem_paths b (reaches_of_mem_paths a (x := x.pass label) hx hz).on hy).le
    exact ⟨c, more, hrest, hc, Nat.lt_of_lt_of_le hlt hle⟩
  · obtain rfl := List.mem_singleton.mp hz
    exact h' (x := x.pass label) hx hy

theorem Begins.plus (h : m.Begins P) (label : Nat) (greedy : Bool) :
    (plus label greedy m).Begins P := by
  intro t x y hx hy
  obtain ⟨z, hz, hy⟩ := List.mem_flatMap.mp hy
  obtain ⟨c, more, hrest, hc, hlt⟩ := h hx hz
  have hle := (reaches_of_mem_againPaths (fun _ _ hx => reaches_of_mem_paths m hx) label greedy _
    (reaches_of_mem_paths m hx hz).on hy).le
  exact ⟨c, more, hrest, hc, Nat.lt_of_lt_of_le hlt hle⟩

/-! ## The first group -/

/-- Every walk through the expression starts with the first group, and that group with a character of
    some kind. -/
def Opens (P : Char → Prop) (m : Matcher) : Prop :=
  ∀ ⦃t : Text⦄ ⦃x y : Cursor⦄, x.On t → y ∈ m.paths x →
    ∃ c more s, x.rest = c :: more ∧ P c ∧ y.groups.lookup 1 = some s ∧ s.start = x.offset ∧
      s.start < s.stop

theorem opens_capture (h : m.Begins P) : (capture 1 m).Opens P := by
  intro t x y hx hy
  obtain ⟨z, hz, rfl⟩ := List.mem_map.mp hy
  obtain ⟨c, more, hrest, hc, hlt⟩ := h hx hz
  exact ⟨c, more, ⟨x.offset, z.offset⟩, hrest, hc, List.lookup_cons_self, rfl, hlt⟩

/-- A test in front of the first group goes over nothing. -/
theorem Opens.look (h : m.Opens P) (l : Look) : (seq (look l) m).Opens P := by
  intro t x y hx hy
  obtain ⟨z, hz, hy'⟩ := List.mem_flatMap.mp hy
  obtain rfl := eq_of_mem_look hz
  exact h hx hy'

theorem Opens.seq (h : a.Opens P) (hb : 1 ∉ b.indices) : (seq a b).Opens P := by
  intro t x y hx hy
  obtain ⟨z, hz, hy⟩ := List.mem_flatMap.mp hy
  obtain ⟨c, more, s, hrest, hc, hs, hstart⟩ := h hx hz
  have hlater := reaches_of_mem_paths b (reaches_of_mem_paths a hx hz).on hy
  exact ⟨c, more, s, hrest, hc, (hlater.lookup_eq hb).trans hs, hstart⟩

/-! ## Behind white space -/

/-- At the start of a text, white space and then a body. -/
def behindBlanks (body : Matcher) : Matcher :=
  .seq (.look .textStart) (.seq (looped 0 (.set (.property .whiteSpace))) body)

/-- A match of an expression that `Fails` behind every character is where a path from the start of the
    text ends. -/
theorem exists_path_of_find?_of_fails {t : Text} {found : Match}
    (hlater : ∀ x : Cursor, x.before.isSome = true → m.Fails x) (h : m.find? t = some found) :
    ∃ y ∈ m.paths (.start t), found = ⟨⟨0, y.offset⟩, y.groups⟩ := by
  rw [find?_eq_matchAt? hlater] at h
  exact exists_path_of_matchAt? h

/-- Behind a character `textStart` fails, and with it what comes after. -/
theorem fails_textStart (m : Matcher) {x : Cursor} (hx : x.before.isSome = true) :
    (seq (look .textStart) m).Fails x := by
  refine (fails_look ?_).seq m
  simpa [Look.holds] using hx

/-- `behindBlanks` begins with `textStart`, so it passes over white space from the start of a text
    only. -/
theorem fails_behindBlanks (body : Matcher) {x : Cursor} (hx : x.before.isSome = true) :
    (behindBlanks body).Fails x :=
  fails_textStart _ hx

/-- What `find?` finds `behindBlanks`: white space, and then the first group, which `Opens` with a
    character of `P`. -/
theorem exists_of_find?_behindBlanks {t : Text} {found : Match} (hm : m.Opens P)
    (h : (behindBlanks m).find? t = some found) :
    ∃ (blanks : Text) (c : Char) (more : Text) (s : Span), t = blanks ++ c :: more ∧
      (∀ d ∈ blanks, Unicode.isWhiteSpace d = true) ∧ P c ∧ found.span.start = 0 ∧
      found.group? 1 = some s ∧ s.start = blanks.size ∧ s.start < s.stop := by
  obtain ⟨y, hy, rfl⟩ := exists_path_of_find?_of_fails (fun _ => fails_behindBlanks m) h
  obtain ⟨x, hx, hy⟩ := List.mem_flatMap.mp hy
  obtain rfl := eq_of_mem_look hx
  obtain ⟨z, hz, hy⟩ := List.mem_flatMap.mp hy
  obtain ⟨blanks, hblanks, hread⟩ := exists_run_of_mem_looped hz
  have hon : z.On t := hread.on (Text.from?_zero t)
  obtain ⟨c, more, s, hrest, hc, hs, hstart, hlt⟩ := hm hon hy
  refine ⟨blanks, c, more, s, ?_, hblanks, hc, rfl, hs, ?_, hlt⟩
  · rw [← hrest]
    exact hread.rest
  · rw [hstart, hread.offset]
    exact Nat.zero_add _

variable {body : Matcher} {lead more : Text}

/-- The other direction: where all the white space comes to an end, the path that the body `Takes` is
    found. Only the labels of the loop over the white space have been seen there. -/
theorem find?_behindBlanks (body : Matcher) (hlead : ∀ c ∈ lead, Unicode.isWhiteSpace c = true)
    (hmore : ∀ c, more.head? = some c → Unicode.isWhiteSpace c = false) :
    ∃ y, Cursor.Reads (.start (lead ++ more)) lead y ∧ (∀ l ∈ y.seen, l < 2) ∧
      ∀ z, body.Takes y z →
        (behindBlanks body).find? (lead ++ more) = some ⟨⟨0, z.offset⟩, z.groups⟩ := by
  obtain ⟨y, htakes, hread⟩ : ∃ y, (looped 0 (.set (.property .whiteSpace))).Takes
      (.start (lead ++ more)) y ∧ Cursor.Reads (.start (lead ++ more)) lead y :=
    takes_looped_set hlead hmore rfl (List.not_mem_nil)
  have hstart : (look .textStart).Takes (.start (lead ++ more)) (.start (lead ++ more)) :=
    takes_look rfl
  refine ⟨y, hread, ?_, fun z hz => find?_of_takes (hstart.seq (htakes.seq hz))⟩
  intro l hl
  rcases remembers_of_mem_paths _ (mem_paths_of_takes htakes) l hl with hl | ⟨hl, -⟩
  · simp only [looped, labels, List.append_nil, List.mem_cons, List.not_mem_nil, or_false] at hl
    omega
  · cases hl

/-- Nothing is found if the body `Fails` where all the white space comes to an end, and wherever more of
    it comes next, as the loop may give some back. -/
theorem find?_behindBlanks_none (hlead : ∀ c ∈ lead, Unicode.isWhiteSpace c = true)
    (hmore : ∀ c, more.head? = some c → Unicode.isWhiteSpace c = false)
    (hbody : ∀ y : Cursor, y.rest = more ∨
      (∃ c, y.rest.head? = some c ∧ Unicode.isWhiteSpace c = true) → body.Fails y) :
    (behindBlanks body).find? (lead ++ more) = none := by
  apply find?_of_fails _ fun _ => fails_behindBlanks body
  apply fails_seq_of_mem_paths
  intro x hx
  obtain rfl := eq_of_mem_look hx
  apply fails_seq_of_mem_paths
  intro y hy
  obtain ⟨run, hrun, hread⟩ := exists_run_of_mem_looped hy
  apply hbody
  -- the loop ends within the white space or where it ends, for it goes over nothing else
  rcases List.append_eq_append_iff.mp hread.rest with ⟨beyond, rfl, hbeyond⟩ | ⟨left, rfl, hleft⟩
  · cases beyond with
    | nil => exact .inl hbeyond.symm
    | cons c beyond =>
        have hc : Unicode.isWhiteSpace c = true := hrun c (by simp)
        rw [hmore c (by rw [hbeyond]; rfl)] at hc
        cases hc
  · cases left with
    | nil => exact .inl hleft
    | cons c left => exact .inr ⟨c, by rw [hleft]; rfl, hlead c (by simp)⟩

end Matcher

end Graft.Regex
