import Graft.Regex.Pattern

/-!
# `Graft.Proofs.Regex.Pattern.Behind` — a parenthesis behind what is read

A part of a pattern is read in the same way whether or not a closing parenthesis stands behind the
pattern, with two exceptions: a comment of the extended style that has not ended takes the parenthesis
up, and an escape at the very end takes it as its character. `Behind` says so of the two outcomes of a
reader; outcomes of readers that come one after the other are put together by `Behind.bind`.

## Contents
- `Behind`, and how outcomes are put together.
- `Flags.skip`, code points, names of properties, word edges and escapes, each with and without the
  parenthesis.
-/

namespace Graft.Regex.Pattern

variable {α β : Type} {s t : Text} {f : Flags} {o o' : Option (α × Text)}

/-- A comment may still be open at the end of a text: behind the last newline stands its sign. -/
def Commented (t : Text) : Prop :=
  ∃ before comment, t = before ++ '#' :: comment ∧ '\n' ∉ comment

theorem Commented.of_suffix (h : Commented s) (hs : s <:+ t) : Commented t := by
  obtain ⟨before, comment, rfl, hcomment⟩ := h
  obtain ⟨lead, rfl⟩ := hs
  exact ⟨lead ++ before, comment, by simp, hcomment⟩

theorem Commented.mem (h : Commented t) : '#' ∈ t := by
  obtain ⟨before, comment, rfl, -⟩ := h
  simp

theorem not_commented_nil : ¬ Commented [] :=
  fun h => nomatch h.mem

/-- What a reader makes of a text, and what it makes of the text with a parenthesis behind it. -/
inductive Behind {α : Type} (t : Text) : Option (α × Text) → Option (α × Text) → Prop
  /-- It stops within the text and leaves the parenthesis. -/
  | kept (a : α) {rest : Text} (h : rest <:+ t) :
      Behind t (some (a, rest)) (some (a, rest ++ [')']))
  /-- It ends with a comment, which takes up the parenthesis. -/
  | swallowed (a : α) (h : Commented t) : Behind t (some (a, [])) (some (a, []))
  | refused : Behind t none none
  /-- It wants one character more, and takes the parenthesis for it. -/
  | used (a : α) : Behind t none (some (a, []))

theorem Behind.mono (h : Behind s o o') (hs : s <:+ t) : Behind t o o' := by
  cases h with
  | kept a h => exact .kept a (h.trans hs)
  | swallowed a h => exact .swallowed a (h.of_suffix hs)
  | refused => exact .refused
  | used a => exact .used a

/-- Where there is nothing to read, `Behind` leaves nothing, and no comment can have been open. -/
theorem Behind.eq_nil (h : Behind [] o o') : o = none ∨ ∃ a, o = some (a, []) := by
  cases h with
  | kept a h => exact .inr ⟨a, by rw [List.suffix_nil.mp h]⟩
  | swallowed a h => exact absurd h not_commented_nil
  | refused => exact .inl rfl
  | used a => exact .inl rfl

/-- One reader after the other. A `swallowed` or `used` parenthesis leaves nothing for the second one, and
    then `Behind.eq_nil` says what it makes of that. -/
theorem Behind.bind {k : α × Text → Option (β × Text)} (h : Behind t o o')
    (hk : ∀ a rest, rest <:+ t → Behind rest (k (a, rest)) (k (a, rest ++ [')']))) :
    Behind t (o >>= k) (o' >>= k) := by
  have hnil (a : α) := (hk a [] List.nil_suffix).eq_nil
  cases h with
  | kept a h => exact (hk a _ h).mono h
  | swallowed a h =>
      -- the second reader sees nothing, with the parenthesis as without
      show Behind t (k (a, [])) (k (a, []))
      rcases hnil a with ha | ⟨b, ha⟩ <;> rw [ha]
      · exact .refused
      · exact .swallowed b h
  | refused => exact .refused
  | used a =>
      show Behind t none (k (a, []))
      rcases hnil a with ha | ⟨b, ha⟩ <;> rw [ha]
      · exact .refused
      · exact .used b

theorem Behind.map (h : Behind t o o') (g : α → β) :
    Behind t (o.map (Prod.map g id)) (o'.map (Prod.map g id)) := by
  cases h with
  | kept a h => exact .kept (g a) h
  | swallowed a h => exact .swallowed (g a) h
  | refused => exact .refused
  | used a => exact .used (g a)

/-- Two results of a reader as one. -/
def together {γ : Type} (x : α × β × γ) : (α × β) × γ :=
  ((x.1, x.2.1), x.2.2)

theorem together_bind {γ δ : Type} (o : Option (α × β × γ)) (k : (α × β) × γ → Option δ) :
    (o >>= fun x => k (together x)) = o.map together >>= k := by
  cases o <;> rfl

/-! ## Blanks and comments -/

/-- What blanks and comments leave of the end `s` of a text. If they begin within a comment, then its
    sign stands before `s`. -/
theorem skipBlanks_behind (inComment : Bool) (hs : s <:+ t)
    (hopen : inComment = true → '\n' ∉ s → Commented t) (a : α) :
    Behind t (some (a, skipBlanks inComment s)) (some (a, skipBlanks inComment (s ++ [')']))) := by
  induction s generalizing inComment with
  | nil =>
      cases inComment with
      | false => exact .kept a List.nil_suffix
      | true => exact .swallowed a (hopen rfl (by simp))
  | cons c rest ih =>
      have hrest : rest <:+ t := (List.suffix_cons c rest).trans hs
      rw [List.cons_append]
      unfold skipBlanks
      cases inComment with
      | true =>
          rw [if_pos rfl, if_pos rfl]
          -- a newline ends the comment; behind any other character it is as open as before
          refine ih _ hrest fun hc hnewline => hopen rfl ?_
          rw [List.mem_cons, not_or]
          exact ⟨(of_decide_eq_true hc).symm, hnewline⟩
      | false =>
          rw [if_neg Bool.false_ne_true, if_neg Bool.false_ne_true]
          by_cases hspace : Unicode.isWhiteSpace c = true
          · rw [if_pos hspace, if_pos hspace]
            exact ih _ hrest nofun
          by_cases hsign : c = '#'
          · rw [if_neg hspace, if_neg hspace, if_pos hsign, if_pos hsign]
            subst hsign
            obtain ⟨lead, rfl⟩ := hs
            exact ih _ hrest fun _ hnewline => ⟨lead, rest, rfl, hnewline⟩
          · rw [if_neg hspace, if_neg hspace, if_neg hsign, if_neg hsign]
            exact .kept a hs

@[simp] theorem Flags.skip_nil (f : Flags) : f.skip [] = [] := by
  unfold Flags.skip
  split <;> rfl

@[simp] theorem Flags.skip_paren (f : Flags) : f.skip [')'] = [')'] := by
  unfold Flags.skip
  split <;> rfl

/-- What extended mode skips is skipped alike, unless the text ends in a comment. -/
theorem Flags.skip_behind (f : Flags) (t : Text) (a : α) :
    Behind t (some (a, f.skip t)) (some (a, f.skip (t ++ [')']))) := by
  unfold Flags.skip
  split
  · exact skipBlanks_behind false (List.suffix_refl t) nofun a
  · exact .kept a (List.suffix_refl t)

/-- `Flags.skip_behind` as a disjunction: blanks leave the parenthesis behind what they leave, or a
    comment takes up everything. -/
theorem Flags.skip_cases (f : Flags) (t : Text) :
    (∃ rest, rest <:+ t ∧ f.skip t = rest ∧ f.skip (t ++ [')']) = rest ++ [')']) ∨
      f.skip t = [] ∧ f.skip (t ++ [')']) = [] ∧ Commented t := by
  have h := f.skip_behind t ()
  generalize f.skip t = u, f.skip (t ++ [')']) = u' at h ⊢
  cases h with
  | kept _ h => exact .inl ⟨_, h, rfl, rfl⟩
  | swallowed _ h => exact .inr ⟨rfl, rfl, h⟩

theorem Flags.skip_suffix (f : Flags) (t : Text) : f.skip t <:+ t := by
  rcases f.skip_cases t with ⟨rest, hrest, h, -⟩ | ⟨h, -⟩ <;> rw [h]
  · exact hrest
  · exact List.nil_suffix

/-- `Behind` for a reader that begins with `Flags.skip`. -/
theorem Behind.skip {k : Text → Option (β × Text)}
    (hk : ∀ rest, rest <:+ t → Behind rest (k rest) (k (rest ++ [')']))) (f : Flags) :
    Behind t (k (f.skip t)) (k (f.skip (t ++ [')']))) :=
  (f.skip_behind t ()).bind (k := fun x => k x.2) fun _ => hk

/-- The rest behind a character is a suffix as well, and shorter. -/
theorem tail_suffix {c : Char} {rest : Text} (h : c :: rest <:+ t) :
    rest <:+ t ∧ rest.length < t.length :=
  ⟨(List.suffix_cons c rest).trans h, h.length_le⟩

/-! ## Runs of characters -/

/-- Where `takeWhile` ends within a text, it makes no difference what stands behind the text. -/
theorem takeWhile_dropWhile_append {p : Char → Bool} {c : Char} {rest : Text}
    (h : t.dropWhile p = c :: rest) (u : Text) :
    (t ++ u).takeWhile p = t.takeWhile p ∧ (t ++ u).dropWhile p = c :: (rest ++ u) := by
  have happend := List.takeWhile_append_dropWhile (p := p) (l := t)
  have htake : (t.takeWhile p).length ≠ t.length := by
    rw [← congrArg List.length happend, h, List.length_append, List.length_cons]
    omega
  constructor
  · rw [List.takeWhile_append, if_neg htake]
  · rw [List.dropWhile_append, h, List.isEmpty_cons, if_neg Bool.false_ne_true, List.cons_append]

/-- The characters of a kind in front of a text, blanks after each passed over. The bound is its
    length. -/
def readRun (p : Char → Bool) (f : Flags) : Nat → Text → Text × Text
  | 0, t => ([], t)
  | _ + 1, [] => ([], [])
  | bound + 1, c :: rest =>
      if p c then Prod.map (c :: ·) id (readRun p f bound (f.skip rest)) else ([], c :: rest)

theorem readRun_nil (p : Char → Bool) (f : Flags) (bound : Nat) : readRun p f bound [] = ([], []) := by
  cases bound <;> rfl

/-- `readRun` ends in front of the parenthesis, as this is none of its characters. The bounds differ,
    since they are the lengths of the texts. -/
theorem readRun_behind {p : Char → Bool} (hp : p ')' = false) (f : Flags) {bound bound' : Nat}
    (h : t.length ≤ bound) (h' : t.length + 1 ≤ bound') :
    Behind t (some (readRun p f bound t)) (some (readRun p f bound' (t ++ [')']))) := by
  induction bound generalizing t bound' with
  | zero =>
      obtain rfl := List.eq_nil_of_length_eq_zero (Nat.le_zero.mp h)
      obtain ⟨bound', rfl⟩ := Nat.exists_eq_succ_of_ne_zero (show bound' ≠ 0 by omega)
      rw [List.nil_append, readRun, readRun, hp]
      exact .kept [] List.nil_suffix
  | succ bound ih =>
      obtain ⟨bound', rfl⟩ := Nat.exists_eq_succ_of_ne_zero (show bound' ≠ 0 by omega)
      cases t with
      | nil =>
          rw [List.nil_append, readRun, readRun, hp]
          exact .kept [] List.nil_suffix
      | cons c rest =>
          rw [List.length_cons] at h h'
          rw [List.cons_append, readRun, readRun]
          by_cases hc : p c = true
          · rw [if_pos hc, if_pos hc]
            rcases f.skip_cases rest with ⟨s, hs, hskip, hskip'⟩ | ⟨hskip, hskip', hcomment⟩ <;>
              rw [hskip, hskip']
            · have hlength := hs.length_le
              have hrun := ih (show s.length ≤ bound by omega) (show s.length + 1 ≤ bound' by omega)
              exact (hrun.map (c :: ·)).mono (hs.trans (List.suffix_cons c rest))
            · -- a comment behind the character takes up all the rest
              rw [readRun_nil, readRun_nil]
              exact .swallowed [c] (hcomment.of_suffix (List.suffix_cons c rest))
          · rw [if_neg hc, if_neg hc]
            exact .kept [] (List.suffix_refl _)

theorem readLetters_eq (f : Flags) (bound : Nat) (t : Text) :
    readLetters f bound t = readRun (fun c => c.isAlpha || c = '-') f bound t := by
  induction bound generalizing t with
  | zero => rfl
  | succ bound ih =>
      cases t with
      | nil => rfl
      | cons c rest =>
          unfold readLetters readRun
          dsimp only
          rw [ih]
          rfl

/-! ## Code points -/

theorem readHexDigits?_behind (f : Flags) (value count : Nat) (t : Text) :
    Behind t (readHexDigits? f value count t) (readHexDigits? f value count (t ++ [')'])) := by
  induction count generalizing value t with
  | zero => exact .kept value (List.suffix_refl t)
  | succ count ih =>
      unfold readHexDigits?
      rcases f.skip_cases t with ⟨rest, hrest, h, h'⟩ | ⟨h, h', -⟩ <;> rw [h, h']
      · cases rest with
        | nil => exact .refused
        | cons c rest =>
            show Behind t (hexValue? c >>= _) (hexValue? c >>= _)
            cases hexValue? c with
            | none => exact .refused
            | some digit => exact (ih _ rest).mono (tail_suffix hrest).1
      · exact .refused

theorem readHexBraced?_succ {c : Char} {rest : Text} (value : Option Nat) (bound : Nat)
    (h : f.skip t = c :: rest) :
    readHexBraced? f value (bound + 1) t =
      if c = '\x7d' then value.map (·, rest)
      else (hexValue? c).bind fun digit =>
        readHexBraced? f (some (16 * value.getD 0 + digit)) bound rest := by
  rw [readHexBraced?, h]
  split <;> simp_all

/-- A number between braces ends with its brace, whatever comes behind. -/
theorem readHexBraced?_behind (f : Flags) (value : Option Nat) {bound bound' : Nat}
    (h : t.length < bound) (h' : t.length + 1 < bound') :
    Behind t (readHexBraced? f value bound t) (readHexBraced? f value bound' (t ++ [')'])) := by
  induction bound generalizing value t bound' with
  | zero => omega
  | succ bound ih =>
      obtain ⟨bound', rfl⟩ := Nat.exists_eq_succ_of_ne_zero (show bound' ≠ 0 by omega)
      rcases f.skip_cases t with ⟨rest, hrest, hskip, hskip'⟩ | ⟨hskip, hskip', -⟩
      · cases rest with
        | nil =>
            rw [readHexBraced?, hskip, readHexBraced?_succ _ _ hskip']
            exact .refused
        | cons c rest =>
            obtain ⟨hsuffix, hlength⟩ := tail_suffix hrest
            rw [readHexBraced?_succ _ _ hskip, readHexBraced?_succ _ _ hskip']
            by_cases hc : c = '\x7d'
            · rw [if_pos hc, if_pos hc]
              cases value with
              | none => exact .refused
              | some n => exact .kept n hsuffix
            · rw [if_neg hc, if_neg hc]
              cases hexValue? c with
              | none => exact .refused
              | some digit =>
                  exact (ih _ (by omega) (by omega)).mono hsuffix
      · rw [readHexBraced?, readHexBraced?, hskip, hskip']
        exact .refused

/-- The character of a code point. -/
def readChar? (f : Flags) (x : Nat × Text) : Option (Atom × Text) := do
  return (.char (← charAt? x.1), f.skip x.2)

theorem readChar?_behind (f : Flags) (n : Nat) (t : Text) :
    Behind t (readChar? f (n, t)) (readChar? f (n, t ++ [')'])) := by
  unfold readChar?
  cases charAt? n with
  | none => exact .refused
  | some c => exact f.skip_behind t (Atom.char c)

/-- The digits of a code point, where no blanks come first. -/
def readHexHere? (f : Flags) (digits : Nat) : Text → Option (Atom × Text)
  | '\x7b' :: inner => readHexBraced? f none (inner.length + 1) inner >>= readChar? f
  | t => readHexDigits? f 0 digits t >>= fun x =>
      if f.unicode ∨ digits ≠ 2 ∨ x.1 < 0x80 then readChar? f x else none

theorem readHex?_eq (f : Flags) (digits : Nat) (t : Text) :
    readHex? f digits t = readHexHere? f digits (f.skip t) := by
  unfold readHex?
  generalize f.skip t = t
  dsimp only
  split
  · rfl
  next hbrace =>
    rw [readHexHere?]
    · rfl
    · exact hbrace

theorem readHexHere?_behind (f : Flags) (digits : Nat) (t : Text) :
    Behind t (readHexHere? f digits t) (readHexHere? f digits (t ++ [')'])) := by
  have hbare (t : Text) := (readHexDigits?_behind f 0 digits t).bind
    (k := fun x => if f.unicode ∨ digits ≠ 2 ∨ x.1 < 0x80 then readChar? f x else none) <| by
      intro n rest _
      dsimp only
      split
      · exact readChar?_behind f n rest
      · exact .refused
  unfold readHexHere?
  cases t with
  | nil => exact hbare []
  | cons c inner =>
      rw [List.cons_append]
      by_cases hc : c = '\x7b'
      · subst hc
        have hread := readHexBraced?_behind f none (Nat.lt_succ_self inner.length)
          (Nat.lt_succ_self (inner.length + 1))
        refine (Behind.bind ?_ fun n rest _ => readChar?_behind f n rest).mono
          (List.suffix_cons _ _)
        simpa using hread
      · split
        · simp_all
        · split
          · simp_all
          · exact hbare (c :: inner)

/-- A character by its number, with digits or between braces. -/
theorem readHex?_behind (f : Flags) (digits : Nat) (t : Text) :
    Behind t (readHex? f digits t) (readHex? f digits (t ++ [')'])) := by
  rw [readHex?_eq, readHex?_eq]
  exact Behind.skip (fun rest _ => readHexHere?_behind f digits rest) f

/-! ## Properties -/

theorem readBraced?_succ {c : Char} {rest : Text} (bound : Nat) (h : f.skip t = c :: rest) :
    readBraced? f (bound + 1) t =
      if c = '\x7d' then some ([], rest)
      else (readBraced? f bound rest).map (Prod.map (c :: ·) id) := by
  rw [readBraced?, h]
  split <;> simp_all

/-- A name that `readBraced?` finds open at the end of a text is refused with the parenthesis too, which
    becomes part of it. -/
theorem readBraced?_behind (f : Flags) {bound bound' : Nat}
    (h : t.length < bound) (h' : t.length + 1 < bound') :
    Behind t (readBraced? f bound t) (readBraced? f bound' (t ++ [')'])) := by
  induction bound generalizing t bound' with
  | zero => omega
  | succ bound ih =>
      obtain ⟨bound', rfl⟩ := Nat.exists_eq_succ_of_ne_zero (show bound' ≠ 0 by omega)
      rcases f.skip_cases t with ⟨rest, hrest, hskip, hskip'⟩ | ⟨hskip, hskip', -⟩
      · cases rest with
        | nil =>
            obtain ⟨bound', rfl⟩ := Nat.exists_eq_succ_of_ne_zero (show bound' ≠ 0 by omega)
            rw [readBraced?, hskip, readBraced?_succ _ hskip', if_neg (by decide), readBraced?,
              f.skip_nil]
            exact .refused
        | cons c rest =>
            obtain ⟨hsuffix, hlength⟩ := tail_suffix hrest
            rw [readBraced?_succ _ hskip, readBraced?_succ _ hskip']
            by_cases hc : c = '\x7d'
            · rw [if_pos hc, if_pos hc]
              exact .kept [] hsuffix
            · rw [if_neg hc, if_neg hc]
              exact ((ih (by omega) (by omega)).map (c :: ·)).mono hsuffix
      · rw [readBraced?, readBraced?, hskip, hskip']
        exact .refused

/-- The name that `readPropertyName?` reads, where no blanks come first. -/
def readNameHere? (f : Flags) : Text → Option (Text × Text)
  | [] | '\\' :: _ => none
  | '\x7b' :: inner => readBraced? f (inner.length + 1) inner
  | c :: rest => some ([c], rest)

theorem readPropertyName?_eq (f : Flags) (t : Text) :
    readPropertyName? f t = readNameHere? f (f.skip t) := by
  unfold readPropertyName? readNameHere?
  generalize f.skip t = t
  rfl

theorem readNameHere?_cons (f : Flags) (c : Char) (rest : Text) :
    readNameHere? f (c :: rest) =
      if c = '\\' then none
      else if c = '\x7b' then readBraced? f (rest.length + 1) rest
      else some ([c], rest) := by
  unfold readNameHere?
  split <;> simp_all

/-- The name of a property, of one letter or between braces. -/
theorem readNameHere?_behind (f : Flags) (t : Text) :
    Behind t (readNameHere? f t) (readNameHere? f (t ++ [')'])) := by
  cases t with
  | nil => exact .used [')']
  | cons c rest =>
      rw [List.cons_append, readNameHere?_cons, readNameHere?_cons]
      by_cases hslash : c = '\\'
      · rw [if_pos hslash, if_pos hslash]
        exact .refused
      rw [if_neg hslash, if_neg hslash]
      by_cases hbrace : c = '\x7b'
      · rw [if_pos hbrace, if_pos hbrace]
        exact (readBraced?_behind f (by simp) (by simp)).mono (List.suffix_cons c rest)
      · rw [if_neg hbrace, if_neg hbrace]
        exact .kept [c] (List.suffix_cons c rest)

/-- Which set a name stands for is asked of the `Engine`, whatever stands behind the name. -/
theorem readProperty?_behind [Engine] (f : Flags) (negated : Bool) (t : Text) :
    Behind t (readProperty? f negated t) (readProperty? f negated (t ++ [')'])) := by
  unfold readProperty?
  rw [readPropertyName?_eq, readPropertyName?_eq]
  refine (Behind.skip (fun rest _ => readNameHere?_behind f rest) f).bind fun name rest _ => ?_
  dsimp only
  by_cases hunicode : f.unicode = true
  · rw [if_pos hunicode, if_pos hunicode]
    cases Engine.property? name with
    | none => exact .refused
    | some s =>
        show Behind rest (f.complete? negated s >>= _) (f.complete? negated s >>= _)
        cases f.complete? negated s with
        | none => exact .refused
        | some s => exact .kept _ (List.suffix_refl rest)
  · rw [if_neg hunicode, if_neg hunicode]
    exact .refused

/-! ## Escapes -/

/-- A test of a word edge is read in front of a brace that the parenthesis turns into the start of a
    repetition. Without the parenthesis the brace is refused. -/
def AtBrace (f : Flags) (o o' : Option (Atom × Text)) : Prop :=
  o = none ∧ ∃ l inner, o' = some (.look l, '\x7b' :: inner) ∧ f.skip inner = [')']

/-- The test that a name in braces stands for. -/
def edgeNamed? (f : Flags) (name : Text) : Option Atom :=
  match String.ofList name with
  | "start" => some (.look (.word .start (!f.unicode)))
  | "end" => some (.look (.word .stop (!f.unicode)))
  | "start-half" => some (.look (.word .startHalf (!f.unicode)))
  | "end-half" => some (.look (.word .stopHalf (!f.unicode)))
  | _ => none

/-- What is left of a brace with a letter behind it. -/
def readEdgeName? (f : Flags) (x : Text × Text) : Option (Atom × Text) :=
  match x.2 with
  | '\x7d' :: after => (edgeNamed? f x.1).map (·, after)
  | _ => none

theorem readEdgeName?_brace (f : Flags) (name after : Text) :
    readEdgeName? f (name, '\x7d' :: after) = (edgeNamed? f name).map (·, after) := rfl

theorem readEdgeName?_behind (f : Flags) (name after : Text) :
    Behind after (readEdgeName? f (name, after)) (readEdgeName? f (name, after ++ [')'])) := by
  cases after with
  | nil => exact .refused
  | cons c rest =>
      unfold readEdgeName?
      by_cases hc : c = '\x7d'
      · subst hc
        show Behind _ ((edgeNamed? f name).map _) ((edgeNamed? f name).map _)
        cases edgeNamed? f name with
        | none => exact .refused
        | some a => exact .kept a (List.suffix_cons _ rest)
      · split
        · simp_all
        · split
          · simp_all
          · exact .refused

theorem readWordEdge?_brace (f : Flags) (inner : Text) :
    readWordEdge? f ('\x7b' :: inner) =
      match f.skip inner with
      | [] => none
      | c :: rest =>
          if c.isAlpha || c = '-' then
            readEdgeName? f (readLetters f (rest.length + 1) (c :: rest))
          else some (.look (.word .boundary (!f.unicode)), '\x7b' :: inner) := by
  rw [readWordEdge?]
  cases f.skip inner with
  | nil => rfl
  | cons c rest =>
      by_cases hc : (c.isAlpha || c = '-') = true
      · simp only [hc, Bool.not_true, Bool.false_eq_true, if_false, if_true]
        generalize readLetters f (rest.length + 1) (c :: rest) = x
        obtain ⟨name, after⟩ := x
        cases after with
        | nil => rfl
        | cons d after =>
            by_cases hd : d = '\x7d'
            · subst hd
              rw [readEdgeName?_brace]
              unfold edgeNamed?
              split
              next heq =>
                obtain ⟨-, rfl⟩ := List.cons.inj heq
                split <;> simp_all
              next hno => exact absurd rfl (hno after)
            · simp [readEdgeName?, hd]
      · simp only [hc, Bool.not_false, Bool.false_eq_true, if_true, if_false]

/-- A word edge by its name. This is the one reader that looks further than what it takes up: without the
    parenthesis a brace behind the edge is refused (`AtBrace`). -/
theorem readWordEdge?_behind (f : Flags) (t : Text) :
    Behind t (readWordEdge? f t) (readWordEdge? f (t ++ [')'])) ∨
      AtBrace f (readWordEdge? f t) (readWordEdge? f (t ++ [')'])) := by
  cases t with
  | nil => exact .inl (.kept _ List.nil_suffix)
  | cons c inner =>
  rw [List.cons_append]
  by_cases hc : c = '\x7b'
  · subst hc
    rw [readWordEdge?_brace, readWordEdge?_brace]
    rcases f.skip_cases inner with ⟨s, hs, hskip, hskip'⟩ | ⟨hskip, hskip', -⟩ <;> rw [hskip, hskip']
    · cases s with
      | nil =>
          -- without the parenthesis a name is missing, and with it the brace begins none
          exact .inr ⟨rfl, _, inner ++ [')'], rfl, hskip'⟩
      | cons d rest =>
          left
          rw [List.cons_append]
          dsimp only
          by_cases hd : (d.isAlpha || d = '-') = true
          · rw [if_pos hd, if_pos hd, readLetters_eq, readLetters_eq]
            have hrun := readRun_behind (p := fun c => c.isAlpha || c = '-') rfl f
              (show (d :: rest).length ≤ rest.length + 1 from Nat.le_refl _)
              (show (d :: rest).length + 1 ≤ (rest ++ [')']).length + 1 by simp)
            refine (hrun.bind (k := readEdgeName? f) fun name after _ =>
              readEdgeName?_behind f name after).mono ?_
            exact hs.trans (List.suffix_cons _ inner)
          · rw [if_neg hd, if_neg hd]
            exact .kept _ (List.suffix_refl _)
    · exact .inl .refused
  · left
    unfold readWordEdge?
    split
    · simp_all
    · split
      · simp_all
      · exact .kept _ (List.suffix_refl _)

/-- All escapes of `readEscape?` are `Behind`, but for the word edge, which looks at the brace behind it
    (`AtBrace`). -/
theorem readEscape?_behind [Engine] (f : Flags) (c : Char) (rest : Text) :
    Behind rest (readEscape? f (c :: rest)) (readEscape? f (c :: (rest ++ [')']))) ∨
      AtBrace f (readEscape? f (c :: rest)) (readEscape? f (c :: (rest ++ [')']))) := by
  have kept (a : Atom) : Behind rest (some (a, rest)) (some (a, rest ++ [')'])) :=
    .kept a (List.suffix_refl rest)
  have negated (a : Atom) : Behind rest (if f.unicode then some (a, rest) else none)
      (if f.unicode then some (a, rest ++ [')']) else none) := by
    split
    · exact kept a
    · exact .refused
  -- only a word edge looks at what follows it
  by_cases hb : c = 'b'
  · subst hb
    exact readWordEdge?_behind f rest
  left
  unfold readEscape?
  dsimp only
  by_cases hescapable : isEscapable c = true
  · rw [if_pos hescapable, if_pos hescapable]
    exact kept _
  rw [if_neg hescapable, if_neg hescapable]
  split
  · exact readHex?_behind f 2 rest
  · exact readHex?_behind f 4 rest
  · exact readHex?_behind f 8 rest
  · exact readProperty?_behind f false rest
  · exact readProperty?_behind f true rest
  all_goals first
    | exact kept _
    | exact negated _
    | exact .refused
    | exact absurd rfl hb

end Graft.Regex.Pattern
