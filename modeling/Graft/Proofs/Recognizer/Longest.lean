import Mathlib.Data.List.TakeWhile
import Graft.Proofs.Recognizer.Name

/-!
# `Graft.Proofs.Recognizer.Longest` — names are read as far as they go

A text begins with many names, each the start of the next, and with one that is the longest of its kind
(`Token.Longest`). Behind a letter or an underscore the longest identifier goes on over all the word
characters that follow (`longest_identifier`). A dotted name is the longest one where neither a word
character nor a dot with a further identifier follows, for a longer one would have to go on with one of them
(`longest_dottedName`).

Names are read behind all the white space that there is, and nothing shorter than the longest one is read.
-/

namespace Graft

namespace Token

variable {c d : Char} {ahead name more : Text}

/-- A name may start here: a letter of ASCII or an underscore comes first. -/
def StartsName (s : Text) : Prop :=
  ∃ c more, s = c :: more ∧ (c = '_' ∨ c.isAlpha = true)

/-- The longest text of a kind among all those that `ahead` begins with. -/
structure Longest (L : Text → Prop) (ahead name : Text) : Prop where
  holds : L name
  starts : name <+: ahead
  longest : ∀ other, L other → other <+: ahead → other <+: name

/-- At most one text is `Longest`. -/
theorem Longest.unique {L : Text → Prop} {name' : Text} (h : Longest L ahead name)
    (h' : Longest L ahead name') : name = name' := by
  have hle := (h.longest name' h'.holds h'.starts).length_le
  exact (h'.longest name h.holds h.starts).eq_of_length_le hle

/-! ## Identifiers -/

/-- Behind the run of all word characters that come next, `EndsIdentifier` holds. -/
theorem endsIdentifier_dropWhile (more : Text) : EndsIdentifier (more.dropWhile Unicode.isWordChar) :=
  fun _ hd => Text.eq_false_of_head?_dropWhile hd

theorem isIdentifier_takeWhile (hc : wordStart.contains c = true) (more : Text) :
    IsIdentifier (c :: more.takeWhile Unicode.isWordChar) :=
  ⟨c, _, rfl, hc, fun _ hd => List.mem_takeWhile_imp hd⟩

/-- The longest identifier is the first letter with all word characters behind it. -/
theorem longest_identifier (hc : wordStart.contains c = true) (more : Text) :
    Longest IsIdentifier (c :: more) (c :: more.takeWhile Unicode.isWordChar) where
  holds := isIdentifier_takeWhile hc more
  starts := List.cons_prefix_cons.mpr ⟨rfl, List.takeWhile_prefix _⟩
  longest := by
    rintro other ⟨first, others, rfl, -, hothers⟩ hstarts
    obtain ⟨rfl, rest, rfl⟩ := List.cons_prefix_cons.mp hstarts
    rw [List.takeWhile_append_of_pos hothers]
    exact List.cons_prefix_cons.mpr ⟨rfl, List.prefix_append _ _⟩

/-! ## Dotted names -/

theorem IsIdentifier.isDottedName (h : IsIdentifier name) : IsDottedName name :=
  ⟨name, [], h, by simp, by simp⟩

/-- One identifier more in front of an `IsDottedName`. -/
theorem IsIdentifier.append_dot {first : Text} (hfirst : IsIdentifier first)
    (hname : IsDottedName name) : IsDottedName (first ++ '.' :: name) := by
  obtain ⟨second, others, hsecond, hothers, rfl⟩ := hname
  exact ⟨first, second :: others, hfirst, List.forall_mem_cons.mpr ⟨hsecond, hothers⟩, by simp⟩

/-- An `IsDottedName` holds nothing but word characters and dots, and a further identifier starts behind
    each dot. -/
theorem IsDottedName.dot_of_not_isWordChar {u v : Text} (h : IsDottedName (u ++ d :: v))
    (hd : Unicode.isWordChar d = false) :
    d = '.' ∧ ∃ c w, v = c :: w ∧ wordStart.contains c = true := by
  obtain ⟨first, others, hfirst, hothers, heq⟩ := h
  have hnotin : ∀ {s}, IsIdentifier s → d ∉ s := by
    intro s hs hmem
    rw [hs.isWordChar d hmem] at hd
    cases hd
  induction others generalizing first u with
  | nil =>
      have hmem : d ∈ first ++ [] := heq ▸ List.mem_append_right u (List.mem_cons_self ..)
      rw [List.append_nil] at hmem
      exact absurd hmem (hnotin hfirst)
  | cons second others ih =>
      obtain ⟨hsecond, hothers⟩ := List.forall_mem_cons.mp hothers
      have heq : u ++ d :: v = first ++ '.' :: (second ++ (others.map ('.' :: ·)).flatten) := by
        simpa using heq
      rcases List.append_eq_append_iff.mp heq with ⟨left, rfl, hleft⟩ | ⟨beyond, rfl, hbeyond⟩
      · -- the character stands in the first identifier, or right behind it
        cases left with
        | nil =>
            obtain ⟨rfl, rfl⟩ := List.cons.inj hleft
            obtain ⟨c, rest, rfl, hc, -⟩ := hsecond
            exact ⟨rfl, c, _, rfl, hc⟩
        | cons a left =>
            obtain ⟨rfl, -⟩ := List.cons.inj hleft
            exact absurd (List.mem_append_right u (List.mem_cons_self ..)) (hnotin hfirst)
      · cases beyond with
        | nil =>
            obtain ⟨rfl, rfl⟩ := List.cons.inj hbeyond
            obtain ⟨c, rest, rfl, hc, -⟩ := hsecond
            exact ⟨rfl, c, _, rfl, hc⟩
        | cons a beyond =>
            obtain ⟨-, hbeyond⟩ := List.cons.inj hbeyond
            exact ih second hsecond hothers hbeyond.symm

/-- A name that `EndsDottedName` ends is the `Longest`: a longer one would go on with a word character, or
    with a dot and the start of an identifier. -/
theorem longest_dottedName (hname : IsDottedName name) (hmore : EndsDottedName more) :
    Longest IsDottedName (name ++ more) name where
  holds := hname
  starts := List.prefix_append _ _
  longest := by
    intro other hother hstarts
    rcases List.prefix_or_prefix_of_prefix hstarts (List.prefix_append name more) with h | ⟨ext, rfl⟩
    · exact h
    cases ext with
    | nil => simp
    | cons d ext =>
        obtain ⟨rest, rfl⟩ := (List.prefix_append_right_inj name).mp hstarts
        obtain ⟨rfl, c, w, rfl, hc⟩ := hother.dot_of_not_isWordChar (hmore.1 d rfl)
        rw [hmore.2 c (w ++ rest) rfl] at hc
        cases hc

/-- Wherever a `wordStart` stands there is an `IsDottedName` that `EndsDottedName` ends. By induction on
    the text: the run of word characters, and the rest of the name behind a dot. -/
theorem exists_dottedName (hc : wordStart.contains c = true) (rest : Text) :
    ∃ name more, c :: rest = name ++ more ∧ IsDottedName name ∧ EndsDottedName more := by
  induction hn : rest.length using Nat.strong_induction_on generalizing c rest with
  | _ n ih =>
    have hfirst := isIdentifier_takeWhile hc rest
    have hsplit : c :: rest
        = (c :: rest.takeWhile Unicode.isWordChar) ++ rest.dropWhile Unicode.isWordChar := by
      rw [List.cons_append, List.takeWhile_append_dropWhile]
    by_cases hdot : ∃ d w, rest.dropWhile Unicode.isWordChar = '.' :: d :: w ∧ wordStart.contains d = true
    · -- the name goes on behind the dot
      obtain ⟨d, w, hbehind, hd⟩ := hdot
      have hshorter : w.length < n := by
        have hlength := congrArg List.length hsplit
        rw [hbehind] at hlength
        simp at hlength
        omega
      obtain ⟨name, more, heq, hname, hmore⟩ := ih _ hshorter hd w rfl
      refine ⟨_, more, ?_, hfirst.append_dot hname, hmore⟩
      rw [hsplit, hbehind, heq]
      simp
    · refine ⟨_, _, hsplit, hfirst.isDottedName, endsIdentifier_dropWhile rest, ?_⟩
      intro d w hbehind
      cases hd : wordStart.contains d with
      | false => rfl
      | true => exact absurd ⟨d, w, hbehind, hd⟩ hdot

/-- `EndsDottedName` in front of a dot means that no name starts behind the dot. -/
theorem EndsDottedName.not_startsName {w : Text} (h : EndsDottedName ('.' :: w)) : ¬ StartsName w := by
  rintro ⟨d, w, rfl, hd⟩
  have hnone := h.2 d w rfl
  rw [contains_wordStart_iff.mpr hd] at hnone
  cases hnone

/-- An `IsDottedName` ends with an identifier, and so with no dot. -/
theorem IsDottedName.getLast?_ne_dot (h : IsDottedName name) : name.getLast? ≠ some '.' := by
  obtain ⟨d, hd, hword⟩ := h.isName.last
  rintro hdot
  obtain rfl := Option.some.inj (hd.symm.trans hdot)
  cases hword

end Token

namespace Recognizer

open Token

variable {t rest : Text} {pos : Nat}

/-- Neither `word` nor `dottedWord` has an answer where `StartsName` fails behind the white space. -/
theorem result_none_of_not_startsName (h : t.from? pos = some rest)
    (hnone : ¬ StartsName (rest.dropWhile Unicode.isWhiteSpace)) :
    (word t pos).result = .ok none ∧ (dottedWord t pos).result = .ok none := by
  rw [← List.takeWhile_append_dropWhile (p := Unicode.isWhiteSpace) (l := rest)] at h
  have hlead : ∀ c ∈ rest.takeWhile Unicode.isWhiteSpace, Unicode.isWhiteSpace c = true :=
    fun c hc => List.mem_takeWhile_imp hc
  have hmore : ∀ c, (rest.dropWhile Unicode.isWhiteSpace).head? = some c →
      Unicode.isWhiteSpace c = false ∧ wordStart.contains c = false := by
    intro c hc
    obtain ⟨more, hmore⟩ := List.head?_eq_some_iff.mp hc
    refine ⟨Text.eq_false_of_head?_dropWhile hc, ?_⟩
    cases hstart : wordStart.contains c with
    | false => rfl
    | true => exact absurd ⟨c, more, hmore, contains_wordStart_iff.mp hstart⟩ hnone
  exact ⟨result_word_none h hlead hmore, result_dottedWord_none h hlead hmore⟩

/-- `word` where a `wordStart` stands behind all the white space: the run of word characters is the
    `Longest` identifier, and is read. -/
theorem exists_word_longest {c : Char} {more : Text} (h : t.from? pos = some rest)
    (hahead : rest.dropWhile Unicode.isWhiteSpace = c :: more) (hc : c = '_' ∨ c.isAlpha = true) :
    ∃ x, (word t pos).result = .ok (some (.word x)) ∧
      x.Delimits t pos (rest.takeWhile Unicode.isWhiteSpace) (c :: more.takeWhile Unicode.isWordChar) ∧
      Longest IsIdentifier (rest.dropWhile Unicode.isWhiteSpace)
        (c :: more.takeWhile Unicode.isWordChar) := by
  have hstart := contains_wordStart_iff.mpr hc
  have hsplit : t.from? pos = some (rest.takeWhile Unicode.isWhiteSpace
      ++ ((c :: more.takeWhile Unicode.isWordChar) ++ more.dropWhile Unicode.isWordChar)) := by
    rw [h, List.cons_append, List.takeWhile_append_dropWhile, ← hahead, List.takeWhile_append_dropWhile]
  refine ⟨_, result_word hsplit (fun d hd => List.mem_takeWhile_imp hd)
    (isIdentifier_takeWhile hstart more) (endsIdentifier_dropWhile more),
    Extent.delimits_token hsplit, ?_⟩
  rw [hahead]
  exact longest_identifier hstart more

/-- `dottedWord` at the same places: `exists_dottedName` gives a name to read, and `longest_dottedName`
    says that no other is longer. -/
theorem exists_dottedWord_longest (h : t.from? pos = some rest)
    (hstarts : StartsName (rest.dropWhile Unicode.isWhiteSpace)) :
    ∃ x name after, (dottedWord t pos).result = .ok (some (.dottedWord x)) ∧
      x.Delimits t pos (rest.takeWhile Unicode.isWhiteSpace) name ∧
      rest.dropWhile Unicode.isWhiteSpace = name ++ after ∧
      Longest IsDottedName (rest.dropWhile Unicode.isWhiteSpace) name ∧
      (∀ c, after.head? = some c → Unicode.isWordChar c = false) ∧
      (∀ w, after = '.' :: w → ¬ StartsName w) ∧ name.getLast? ≠ some '.' := by
  obtain ⟨c, more, hahead, hc⟩ := hstarts
  obtain ⟨name, after, heq, hname, hafter⟩ := exists_dottedName (contains_wordStart_iff.mpr hc) more
  have hsplit : t.from? pos = some (rest.takeWhile Unicode.isWhiteSpace ++ (name ++ after)) := by
    rw [h, ← heq, ← hahead, List.takeWhile_append_dropWhile]
  have hlongest := longest_dottedName hname hafter
  rw [hahead, heq]
  refine ⟨_, name, after, result_dottedWord hsplit (fun d hd => List.mem_takeWhile_imp hd) hname hafter,
    Extent.delimits_token hsplit, rfl, hlongest, hafter.1, ?_, hname.getLast?_ne_dot⟩
  rintro w rfl
  exact hafter.not_startsName

/-- **Names.** At a cut of the text, `word` and `dottedWord` answer exactly where a letter of ASCII or an
    underscore comes behind all the white space. The identifier is this character and the run of all the
    word characters behind it. The dotted name is the `Longest` one: neither a word character nor a dot
    with a further name follows, and no dot is at its end. Both `Delimits` start behind the white space
    and end with the name. -/
theorem names_longest (h : t.from? pos = some rest) :
    let lead := rest.takeWhile Unicode.isWhiteSpace
    let ahead := rest.dropWhile Unicode.isWhiteSpace
    ((∃ e, (word t pos).result = .ok (some e)) ↔ StartsName ahead) ∧
      ((∃ e, (dottedWord t pos).result = .ok (some e)) ↔ StartsName ahead) ∧
      (¬ StartsName ahead → (word t pos).result = .ok none ∧ (dottedWord t pos).result = .ok none) ∧
      (∀ c more, ahead = c :: more → c = '_' ∨ c.isAlpha = true →
        ∃ x, (word t pos).result = .ok (some (.word x)) ∧
          x.Delimits t pos lead (c :: more.takeWhile Unicode.isWordChar) ∧
          Longest IsIdentifier ahead (c :: more.takeWhile Unicode.isWordChar)) ∧
      (StartsName ahead → ∃ x name after, (dottedWord t pos).result = .ok (some (.dottedWord x)) ∧
        x.Delimits t pos lead name ∧ ahead = name ++ after ∧ Longest IsDottedName ahead name ∧
        (∀ c, after.head? = some c → Unicode.isWordChar c = false) ∧
        (∀ w, after = '.' :: w → ¬ StartsName w) ∧ name.getLast? ≠ some '.') := by
  intro lead ahead
  refine ⟨⟨?_, ?_⟩, ⟨?_, ?_⟩, result_none_of_not_startsName h, fun c more => exists_word_longest h,
    exists_dottedWord_longest h⟩
  · rintro ⟨e, he⟩
    by_contra hnone
    cases he.symm.trans (result_none_of_not_startsName h hnone).1
  · rintro ⟨c, more, hahead, hc⟩
    obtain ⟨x, hx, -⟩ := exists_word_longest h hahead hc
    exact ⟨_, hx⟩
  · rintro ⟨e, he⟩
    by_contra hnone
    cases he.symm.trans (result_none_of_not_startsName h hnone).2
  · intro hstarts
    obtain ⟨x, -, -, hx, -⟩ := exists_dottedWord_longest h hstarts
    exact ⟨_, hx⟩

/-- `names_longest` behind a wide blank, for an identifier with a combining mark in it, a second one
    behind a dot, and a dot that no name follows. -/
theorem names_longest_mark :
    Text.from? ['x', '\u3000', '_', 'a', '\u0301', '.', 'b', '.', '1'] 1
        = some ['\u3000', '_', 'a', '\u0301', '.', 'b', '.', '1'] ∧
      (∃ x, (word ['x', '\u3000', '_', 'a', '\u0301', '.', 'b', '.', '1'] 1).result
          = .ok (some (.word x)) ∧
        x.Delimits ['x', '\u3000', '_', 'a', '\u0301', '.', 'b', '.', '1'] 1 ['\u3000']
          ['_', 'a', '\u0301']) ∧
      ∃ x, (dottedWord ['x', '\u3000', '_', 'a', '\u0301', '.', 'b', '.', '1'] 1).result
          = .ok (some (.dottedWord x)) ∧
        x.Delimits ['x', '\u3000', '_', 'a', '\u0301', '.', 'b', '.', '1'] 1 ['\u3000']
          ['_', 'a', '\u0301', '.', 'b'] := by
  have hfrom : Text.from? ['x', '\u3000', '_', 'a', '\u0301', '.', 'b', '.', '1'] 1
      = some ['\u3000', '_', 'a', '\u0301', '.', 'b', '.', '1'] := by decide
  obtain ⟨-, -, -, hword, hdotted⟩ := names_longest hfrom
  obtain ⟨y, hy, hfirst, -⟩ := hword '_' ['a', '\u0301', '.', 'b', '.', '1'] rfl (.inl rfl)
  refine ⟨hfrom, ⟨y, hy, hfirst⟩, ?_⟩
  obtain ⟨x, name, after, hx, hdelimits, -, hlongest, -⟩ :=
    hdotted ⟨'_', ['a', '\u0301', '.', 'b', '.', '1'], rfl, .inl rfl⟩
  have hsecond : IsIdentifier ['b'] := ⟨'b', [], rfl, rfl, by simp⟩
  have hname : IsDottedName ['_', 'a', '\u0301', '.', 'b'] :=
    ⟨['_', 'a', '\u0301'], [['b']], ⟨'_', _, rfl, rfl, List.all_eq_true.mp rfl⟩,
      List.forall_mem_singleton.mpr hsecond, rfl⟩
  have hmore : EndsDottedName ['.', '1'] :=
    ⟨by rintro c ⟨⟩; rfl, by rintro c rest ⟨⟩; rfl⟩
  obtain rfl := hlongest.unique (longest_dottedName hname hmore)
  exact ⟨x, hx, hdelimits⟩

end Recognizer

end Graft
