import Graft.Proofs.Regex.Pattern.Behind

/-!
# `Graft.Proofs.Regex.Pattern.Members` — a parenthesis behind what is read in brackets

Whether a member ends is told by the character after it, so the parenthesis may end a member that was
not complete without it (`Loosely`). But a bracket closes with a bracket: a list of members that the
pattern leaves open is refused with the parenthesis and without it (`readBrackets?_behind`).
-/

namespace Graft.Regex.Pattern

variable {α β : Type} {s t : Text} {f : Flags} {o o' : Option (α × Text)}

/-- As `Behind`, or the reader wanted to see one more character, and leaves the parenthesis. -/
def Loosely (t : Text) (o o' : Option (α × Text)) : Prop :=
  Behind t o o' ∨ o = none ∧ ∃ a, o' = some (a, [')'])

theorem Loosely.mono (h : Loosely s o o') (hs : s <:+ t) : Loosely t o o' :=
  h.imp_left (·.mono hs)

theorem Loosely.eq_nil (h : Loosely [] o o') : o = none ∨ ∃ a, o = some (a, []) :=
  h.elim Behind.eq_nil fun h => .inl h.1

/-- A reader that goes on behind one that is `Behind` may be `Loosely` so. -/
theorem Behind.bind_loosely {k : α × Text → Option (β × Text)} (h : Behind t o o')
    (hk : ∀ a rest, rest <:+ t → Loosely rest (k (a, rest)) (k (a, rest ++ [')']))) :
    Loosely t (o >>= k) (o' >>= k) := by
  have hnil (a : α) := (hk a [] List.nil_suffix).eq_nil
  cases h with
  | kept a h => exact (hk a _ h).mono h
  | swallowed a h =>
      left
      show Behind t (k (a, [])) (k (a, []))
      rcases hnil a with ha | ⟨b, ha⟩ <;> rw [ha]
      · exact .refused
      · exact .swallowed b h
  | refused => exact .inl .refused
  | used a =>
      left
      show Behind t none (k (a, []))
      rcases hnil a with ha | ⟨b, ha⟩ <;> rw [ha]
      · exact .refused
      · exact .used b

/-- A reader that needs more than the parenthesis, after one that reads `Loosely`: then both are `Behind`
    again. Brackets close with a bracket, so what reads on within them is such a reader. -/
theorem Loosely.bind {k k' : α × Text → Option (β × Text)} (h : Loosely t o o')
    (hk : ∀ a rest, rest <:+ t → Behind rest (k (a, rest)) (k' (a, rest ++ [')'])))
    (hnil : ∀ a, k (a, []) = none ∧ k' (a, []) = none) (hparen : ∀ a, k' (a, [')']) = none) :
    Behind t (o >>= k) (o' >>= k') := by
  rcases h with h | ⟨rfl, a, rfl⟩
  · cases h with
    | kept a h => exact (hk a _ h).mono h
    | swallowed a h =>
        show Behind t (k (a, [])) (k' (a, []))
        rw [(hnil a).1, (hnil a).2]
        exact .refused
    | refused => exact .refused
    | used a =>
        show Behind t none (k' (a, []))
        rw [(hnil a).2]
        exact .refused
  · show Behind t none (k' (a, [')']))
    rw [hparen a]
    exact .refused

/-! ## Members -/

theorem dropWhile_isWhiteSpace_append (t : Text) :
    (t ++ [')']).dropWhile Unicode.isWhiteSpace = t.dropWhile Unicode.isWhiteSpace ++ [')'] := by
  rw [List.dropWhile_append]
  split
  next h => rw [List.isEmpty_iff.mp h]; rfl
  · rfl

theorem head?_append_eq_some_iff {c : Char} (hc : c ≠ ')') (t : Text) :
    (t ++ [')']).head? = some c ↔ t.head? = some c := by
  cases t with
  | nil => simpa using hc.symm
  | cons d rest => rfl

/-- `peekPastBlanks` sees a character other than the parenthesis with it just if it does so without. -/
theorem peekPastBlanks_append {c : Char} (hc : c ≠ ')') (f : Flags) (t : Text) :
    peekPastBlanks f (t ++ [')']) = some c ↔ peekPastBlanks f t = some c := by
  unfold peekPastBlanks
  split
  · rw [dropWhile_isWhiteSpace_append]
    cases t.dropWhile Unicode.isWhiteSpace with
    | nil => simpa using hc.symm
    | cons d rest =>
        by_cases hd : d = '#'
        · subst hd
          show ((rest ++ [')']).dropWhile Unicode.isWhiteSpace).head? = some c ↔
            (rest.dropWhile Unicode.isWhiteSpace).head? = some c
          rw [dropWhile_isWhiteSpace_append]
          exact head?_append_eq_some_iff hc _
        · simp [hd]
  · exact head?_append_eq_some_iff hc t

/-- The members of brackets begin with atoms. An atom is read alike, but for a word edge in front of a
    brace (`AtBrace`). -/
theorem readAtom?_behind [Engine] (f : Flags) (c : Char) (rest : Text) :
    Behind rest (readAtom? f (c :: rest)) (readAtom? f (c :: (rest ++ [')']))) ∨
      AtBrace f (readAtom? f (c :: rest)) (readAtom? f (c :: (rest ++ [')']))) := by
  by_cases hc : c = '\\'
  · subst hc
    show Behind rest (readEscape? f rest) (readEscape? f (rest ++ [')'])) ∨ AtBrace f _ _
    cases rest with
    | nil => exact .inl (.used (Atom.char ')'))
    | cons d rest =>
        exact (readEscape?_behind f d rest).imp_left (·.mono (List.suffix_cons d rest))
  · left
    rw [readAtom?, readAtom?]
    · exact .kept _ (List.suffix_refl _)
    · exact hc
    · exact hc

/-- Tests end no range, which `Atom.to?` has to be told where a word edge stands `AtBrace`. -/
theorem Atom.to?_look (f : Flags) (first : Atom) (l : Look) : first.to? f (.look l) = none := by
  cases first <;> rfl

/-- `Behind` for what is made of something that has been read, without a look at the text behind it. -/
theorem behind_map (o : Option α) (t : Text) : Behind t (o.map (·, t)) (o.map (·, t ++ [')'])) := by
  cases o with
  | none => exact .refused
  | some a => exact .kept a (List.suffix_refl t)

/-- What `readMember?` reads behind its first atom. -/
def readRange? [Engine] (f : Flags) (first : Atom) : Text → Option (CharSet × Text)
  | [] => none
  | c :: after =>
      if c ≠ '-' ∨ peekPastBlanks f after = some ']' ∨ peekPastBlanks f after = some '-' then
        (first.member? f).map (·, c :: after)
      else readAtom? f (f.skip after) >>= fun x => (first.to? f x.1).map (·, x.2)

theorem readMember?_eq [Engine] (f : Flags) (t : Text) :
    readMember? f t = readAtom? f t >>= fun x => readRange? f x.1 (f.skip x.2) := by
  unfold readMember?
  congr 1
  funext x
  obtain ⟨first, rest⟩ := x
  dsimp only
  cases f.skip rest with
  | nil => rfl
  | cons c after =>
      rw [readRange?]
      dsimp only
      by_cases halone : c ≠ '-' ∨ peekPastBlanks f after = some ']' ∨ peekPastBlanks f after = some '-'
      · rw [if_pos halone, if_pos halone]
        cases first.member? f <;> rfl
      · rw [if_neg halone, if_neg halone]
        congr 1
        funext x
        cases first.to? f x.1 <;> rfl

/-- Nor are they members by themselves. -/
theorem readRange?_look [Engine] (f : Flags) (l : Look) (t : Text) : readRange? f (.look l) t = none := by
  cases t with
  | nil => rfl
  | cons c after =>
      rw [readRange?]
      split
      · rfl
      · cases readAtom? f (f.skip after) <;> rfl

/-- What `readMember?` reads behind its first atom. Without a character behind the atom there is no
    member, and the parenthesis is such a character. -/
theorem readRange?_behind [Engine] (f : Flags) (first : Atom) (t : Text) :
    Loosely t (readRange? f first t) (readRange? f first (t ++ [')'])) := by
  cases t with
  | nil =>
      show Loosely [] none ((first.member? f).map (·, [')']))
      cases first.member? f with
      | none => exact .inl .refused
      | some s => exact .inr ⟨rfl, s, rfl⟩
  | cons c after =>
      left
      have hclose := peekPastBlanks_append (show ']' ≠ ')' by decide) f after
      have hhyphen := peekPastBlanks_append (show '-' ≠ ')' by decide) f after
      rw [List.cons_append, readRange?, readRange?]
      simp only [hclose, hhyphen]
      split
      · exact behind_map (first.member? f) (c :: after)
      · rcases f.skip_cases after with ⟨s, hs, hskip, hskip'⟩ | ⟨hskip, hskip', -⟩ <;>
          rw [hskip, hskip']
        · cases s with
          | nil =>
              -- the parenthesis is taken for the end of the range
              show Behind _ none ((first.to? f (.char ')')).map (·, []))
              cases first.to? f (.char ')') with
              | none => exact .refused
              | some s => exact .used s
          | cons d rest =>
              rcases readAtom?_behind f d rest with h | ⟨h, l, inner, h', -⟩
              · refine (h.bind fun last u _ => behind_map (first.to? f last) u).mono ?_
                exact (tail_suffix hs).1.trans (List.suffix_cons c after)
              · -- what is read in front of the brace is a test, and that ends no range
                rw [h, List.cons_append, h']
                show Behind _ none ((first.to? f (.look l)).map (·, '\x7b' :: inner))
                rw [Atom.to?_look]
                exact .refused
        · exact .refused

/-- The parenthesis alone is no member, since `readMember?` wants to see what comes behind it. -/
theorem readMember?_paren [Engine] (f : Flags) : readMember? f [')'] = none := by
  rw [readMember?_eq]
  show readRange? f (.char ')') (f.skip []) = none
  rw [f.skip_nil]
  rfl

/-- A member is an atom and perhaps the end of a range. The range may be what takes the parenthesis up. -/
theorem readMember?_behind [Engine] (f : Flags) (c : Char) (rest : Text) :
    Loosely rest (readMember? f (c :: rest)) (readMember? f (c :: (rest ++ [')']))) := by
  rw [readMember?_eq, readMember?_eq]
  rcases readAtom?_behind f c rest with h | ⟨h, l, inner, h', -⟩
  · refine h.bind_loosely fun first u _ => ?_
    dsimp only
    rcases f.skip_cases u with ⟨s, hs, hskip, hskip'⟩ | ⟨hskip, hskip', -⟩ <;> rw [hskip, hskip']
    · exact (readRange?_behind f first s).mono hs
    · exact .inl .refused
  · left
    rw [h, h']
    show Behind _ none (readRange? f (.look l) _)
    rw [readRange?_look]
    exact .refused

/-! ## Names between colons -/

/-- Whether a circumflex comes first, and what stands behind it. -/
def readCaret (t : Text) : Bool × Text :=
  match t with
  | '^' :: rest => (true, rest)
  | _ => (false, t)

theorem readCaret_append (t : Text) :
    readCaret (t ++ [')']) = Prod.map id (· ++ [')']) (readCaret t) := by
  cases t with
  | nil => rfl
  | cons c rest => by_cases hc : c = '^' <;> simp [readCaret, hc]

theorem readCaret_suffix (t : Text) : (readCaret t).2 <:+ t := by
  unfold readCaret
  split
  · exact List.suffix_cons _ _
  · exact List.suffix_refl t

/-- The name in front of a colon, with a bracket behind it. -/
def readClass? (negated : Bool) (t : Text) : Option ((Bool × CharSet) × Text) :=
  match t.dropWhile (· ≠ ':') with
  | ':' :: ']' :: rest =>
      (CharSet.named? (t.takeWhile (· ≠ ':'))).map fun s => ((negated, s), rest)
  | _ => none

theorem readName?_colon (t : Text) :
    readName? (':' :: t) = readClass? (readCaret t).1 (readCaret t).2 :=
  rfl

/-- With the parenthesis behind it a text begins with a name between colons just if it does so
    without. -/
def Likewise (t : Text) (o o' : Option (α × Text)) : Prop :=
  (∃ a rest, rest <:+ t ∧ o = some (a, rest) ∧ o' = some (a, rest ++ [')'])) ∨ o = none ∧ o' = none

theorem Likewise.mono (h : Likewise s o o') (hs : s <:+ t) : Likewise t o o' :=
  h.imp_left fun ⟨a, rest, hrest, ho⟩ => ⟨a, rest, hrest.trans hs, ho⟩

/-- A class between colons reads `Likewise`: it ends with a bracket, which comes in front of the
    parenthesis. -/
theorem readClass?_likewise (negated : Bool) (t : Text) :
    Likewise t (readClass? negated t) (readClass? negated (t ++ [')'])) := by
  have hsuffix := List.dropWhile_suffix (l := t) (· ≠ ':')
  unfold readClass?
  cases h : t.dropWhile (· ≠ ':') with
  | nil =>
      rw [List.dropWhile_append, h]
      exact .inr ⟨rfl, rfl⟩
  | cons c rest =>
      obtain ⟨htake, hdrop⟩ := takeWhile_dropWhile_append h [')']
      rw [h] at hsuffix
      rw [htake, hdrop]
      by_cases hclose : c = ':' ∧ rest.head? = some ']'
      · obtain ⟨rfl, hrest⟩ := hclose
        obtain ⟨rest, rfl⟩ := List.head?_eq_some_iff.mp hrest
        show Likewise t (Option.map _ _) (Option.map _ _)
        cases CharSet.named? (t.takeWhile (· ≠ ':')) with
        | none => exact .inr ⟨rfl, rfl⟩
        | some s => exact .inl ⟨_, rest, (tail_suffix (tail_suffix hsuffix).1).1, rfl, rfl⟩
      · right
        constructor
        · split
          · simp_all
          · rfl
        · split
          · cases rest <;> simp_all
          · rfl

/-- `readClass?_likewise` behind the caret, if there is one. -/
theorem readName?_likewise (t : Text) : Likewise t (readName? t) (readName? (t ++ [')'])) := by
  cases t with
  | nil => exact .inr ⟨rfl, rfl⟩
  | cons c rest =>
      by_cases hc : c = ':'
      · subst hc
        rw [List.cons_append, readName?_colon, readName?_colon, readCaret_append]
        exact (readClass?_likewise _ _).mono ((readCaret_suffix rest).trans (List.suffix_cons _ rest))
      · have hnone (u : Text) : readName? (c :: u) = none := by
          simp [readName?, hc]
        exact .inr ⟨hnone rest, hnone (rest ++ [')'])⟩

/-! ## Brackets -/

theorem readHyphens_eq (f : Flags) (bound : Nat) (t : Text) :
    readHyphens f bound t =
      Prod.map (List.map fun _ => ⟨.char '-', 0⟩) id (readRun (· = '-') f bound t) := by
  induction bound generalizing t with
  | zero => rfl
  | succ bound ih =>
      cases t with
      | nil => rfl
      | cons c rest =>
          by_cases hc : c = '-'
          · subst hc
            show ((_ :: (readHyphens f bound (f.skip rest)).1,
              (readHyphens f bound (f.skip rest)).2) : List Nested × Text) = _
            rw [ih]
            rfl
          · simp [readHyphens, readRun, hc]

/-- What a bracket begins with, once the hyphens at its start have been read. -/
def openWith? (f : Flags) (negated : Bool) (x : List Nested × Text) :
    Option (Bool × List Nested × Text) :=
  match x.1, x.2 with
  | _, [] => none
  | [], ']' :: rest =>
      if (f.skip rest).isEmpty then none else some (negated, [⟨.char ']', 0⟩], f.skip rest)
  | _, _ => some (negated, x.1, x.2)

/-- `readOpening?` in three: `readCaret` behind blanks, blanks again, and `openWith?` behind the
    hyphens. -/
theorem readOpening?_eq (f : Flags) (t : Text) :
    readOpening? f t =
      let u := if (readCaret (f.skip t)).1 then f.skip (readCaret (f.skip t)).2
        else (readCaret (f.skip t)).2
      openWith? f (readCaret (f.skip t)).1 (readHyphens f u.length u) := by
  unfold readOpening?
  generalize f.skip t = t
  cases t with
  | nil => rfl
  | cons c rest =>
      by_cases hc : c = '^'
      · subst hc
        rfl
      · simp only [readCaret, List.cons.injEq, hc, false_and, imp_self, implies_true]
        rfl

theorem openWith?_behind (f : Flags) (negated : Bool) (hyphens : List Nested) (t : Text) :
    Loosely t ((openWith? f negated (hyphens, t)).map together)
      ((openWith? f negated (hyphens, t ++ [')'])).map together) := by
  cases t with
  | nil => cases hyphens <;> exact .inr ⟨rfl, _, rfl⟩
  | cons c rest =>
      by_cases hfirst : hyphens = [] ∧ c = ']'
      · obtain ⟨rfl, rfl⟩ := hfirst
        have hclose (u : Text) : openWith? f negated ([], ']' :: u) =
            if (f.skip u).isEmpty then none else some (negated, [⟨.char ']', 0⟩], f.skip u) :=
          rfl
        rw [List.cons_append, hclose, hclose]
        rcases f.skip_cases rest with ⟨s, hs, hskip, hskip'⟩ | ⟨hskip, hskip', -⟩ <;>
          rw [hskip, hskip']
        · cases s with
          | nil => exact .inr ⟨rfl, _, rfl⟩
          | cons d s => exact .inl (.kept _ (hs.trans (List.suffix_cons _ rest)))
        · exact .inl .refused
      · have hplain (u : Text) : openWith? f negated (hyphens, c :: u) =
            some (negated, hyphens, c :: u) := by
          cases hyphens <;> simp_all [openWith?]
        rw [List.cons_append, hplain, hplain]
        exact .inl (.kept _ (List.suffix_refl _))

theorem openWith?_readHyphens_behind (f : Flags) (negated : Bool) (t : Text) :
    Loosely t ((openWith? f negated (readHyphens f t.length t)).map together)
      ((openWith? f negated (readHyphens f (t ++ [')']).length (t ++ [')']))).map together) := by
  have hrun := (readRun_behind (p := (· = '-')) rfl f (Nat.le_refl t.length)
    (show t.length + 1 ≤ (t ++ [')']).length by simp)).map (List.map fun _ => (⟨.char '-', 0⟩ : Nested))
  rw [readHyphens_eq, readHyphens_eq]
  exact hrun.bind_loosely (k := fun x => (openWith? f negated x).map together)
    fun hyphens u _ => openWith?_behind f negated hyphens u

/-- What may come right behind an opening bracket: a caret, hyphens, and a closing bracket that is a
    member. -/
theorem readOpening?_behind (f : Flags) (t : Text) :
    Loosely t ((readOpening? f t).map together) ((readOpening? f (t ++ [')'])).map together) := by
  rw [readOpening?_eq, readOpening?_eq]
  rcases f.skip_cases t with ⟨s, hs, hskip, hskip'⟩ | ⟨hskip, hskip', -⟩ <;> rw [hskip, hskip']
  · have hcaret := readCaret_suffix s
    rw [readCaret_append]
    generalize readCaret s = x at hcaret ⊢
    obtain ⟨negated, u⟩ := x
    cases negated with
    | false => exact (openWith?_readHyphens_behind f false u).mono (hcaret.trans hs)
    | true =>
        show Loosely t ((openWith? f true (readHyphens f (f.skip u).length (f.skip u))).map together)
          ((openWith? f true (readHyphens f (f.skip (u ++ [')'])).length
            (f.skip (u ++ [')'])))).map together)
        rcases f.skip_cases u with ⟨v, hv, hskip, hskip'⟩ | ⟨hskip, hskip', -⟩ <;>
          rw [hskip, hskip']
        · exact (openWith?_readHyphens_behind f true v).mono (hv.trans (hcaret.trans hs))
        · exact .inl .refused
  · exact .inl .refused

theorem readMembers?_nil [Engine] (f : Flags) (bound : Nat) (stack : List Open) (members : List Nested) :
    readMembers? f bound stack members [] = none := by
  cases bound with
  | zero => rfl
  | succ bound => rw [readMembers?, f.skip_nil]

/-- The parenthesis alone does not close a bracket, by `readMember?_paren`. -/
theorem readMembers?_paren [Engine] (h : f.skip t = [')']) (bound : Nat) (stack : List Open)
    (members : List Nested) : readMembers? f bound stack members t = none := by
  cases bound with
  | zero => rfl
  | succ bound =>
      unfold readMembers?
      rw [h]
      show readMember? f [')'] >>= _ = none
      rw [readMember?_paren]
      rfl

/-- The character that stands twice for an operator. -/
def SetOp.sign : SetOp → Char
  | inter => '&'
  | diff => '-'
  | symmDiff => '~'

section Steps

variable [Engine] {c : Char} {rest : Text} (bound : Nat) (stack : List Open) (members : List Nested)

/-- What the reader of members does with an opening bracket. There is one equation for each sign, so that
    the induction below never opens its definition. -/
theorem readMembers?_open (h : f.skip t = '[' :: rest) :
    readMembers? f (bound + 1) stack members t =
      match readName? rest with
      | some ((negated, s), rest) =>
          (f.complete? negated s).bind fun s => readMembers? f bound stack (⟨s, 0⟩ :: members) rest
      | none => (readOpening? f rest).map together >>= fun x =>
          readMembers? f bound (.bracket members x.1.1 :: stack) x.1.2 x.2 := by
  rw [readMembers?, h, ← together_bind]
  rfl

/-- And with a closing one: the members are gathered, and the last bracket of all ends the reading. -/
theorem readMembers?_close (h : f.skip t = ']' :: rest) :
    readMembers? f (bound + 1) stack members t =
      match (reduceOperator f (gather members) stack).2 with
      | [.bracket _ negated] =>
          (closeBracket? f negated (reduceOperator f (gather members) stack).1).map (·, rest)
      | .bracket outer negated :: stack' =>
          (closeBracket? f negated (reduceOperator f (gather members) stack).1).bind fun closed =>
            readMembers? f bound stack' (closed :: outer) rest
      | _ => none := by
  rw [readMembers?, h]
  rfl

/-- And with the sign of an operator, written twice. -/
theorem readMembers?_operator {op : SetOp} (h : f.skip t = op.sign :: op.sign :: rest) :
    readMembers? f (bound + 1) stack members t =
      readMembers? f bound (.operator op (reduceOperator f (gather members) stack).1 ::
        (reduceOperator f (gather members) stack).2) [] rest := by
  rw [readMembers?, h]
  cases op <;> rfl

/-- And with anything else, which is a member. -/
theorem readMembers?_member (h : f.skip t = c :: rest) (hopen : c ≠ '[') (hclose : c ≠ ']')
    (hop : ∀ op : SetOp, c = op.sign → rest.head? ≠ some op.sign) :
    readMembers? f (bound + 1) stack members t =
      readMember? f (c :: rest) >>= fun x => readMembers? f bound stack (⟨x.1, 0⟩ :: members) x.2 := by
  have hinter := hop .inter
  have hdiff := hop .diff
  have hsymm := hop .symmDiff
  rw [readMembers?, h]
  split <;> simp_all [SetOp.sign]

end Steps

/-- The loop within brackets. By induction on the bound, with one case for each equation of a step; a
    member that is read `Loosely` leads on to a step that wants more than the parenthesis. -/
theorem readMembers?_behind [Engine] (f : Flags) {bound bound' : Nat} (stack : List Open)
    (members : List Nested) (h : t.length < bound) (h' : t.length + 1 < bound') :
    Behind t (readMembers? f bound stack members t)
      (readMembers? f bound' stack members (t ++ [')'])) := by
  induction bound generalizing t bound' stack members with
  | zero => omega
  | succ bound ih =>
      obtain ⟨bound', rfl⟩ := Nat.exists_eq_succ_of_ne_zero (show bound' ≠ 0 by omega)
      obtain ⟨s, hs, hskip, hskip'⟩ | ⟨hskip, hskip', -⟩ := f.skip_cases t
      case inr =>
        rw [readMembers?, readMembers?, hskip, hskip']
        exact .refused
      cases s with
      | nil =>
          rw [readMembers?, hskip, readMembers?_paren hskip']
          exact .refused
      | cons c rest =>
      obtain ⟨hrest, hlength⟩ := tail_suffix hs
      rw [List.cons_append] at hskip'
      -- the bounds differ, since the one is that of the longer text
      have next (stack : List Open) (members : List Nested) {u : Text} (hu : u <:+ rest) :
          Behind u (readMembers? f bound stack members u)
            (readMembers? f bound' stack members (u ++ [')'])) := by
        have := hu.length_le
        exact ih stack members (by omega) (by omega)
      refine Behind.mono ?_ hrest
      by_cases hopen : c = '['
      · subst hopen
        rw [readMembers?_open _ _ _ hskip, readMembers?_open _ _ _ hskip']
        rcases readName?_likewise rest with ⟨a, u, hu, hname, hname'⟩ | ⟨hname, hname'⟩ <;>
          rw [hname, hname']
        · obtain ⟨negated, s⟩ := a
          show Behind rest ((f.complete? negated s).bind _) ((f.complete? negated s).bind _)
          cases f.complete? negated s with
          | none => exact .refused
          | some s => exact (next _ _ hu).mono hu
        · -- an opening may leave the parenthesis alone, which does not close the bracket
          exact (readOpening?_behind f rest).bind (fun _ _ hu => next _ _ hu)
            (fun _ => ⟨readMembers?_nil f bound _ _, readMembers?_nil f bound' _ _⟩)
            fun _ => readMembers?_paren f.skip_paren bound' _ _
      by_cases hclose : c = ']'
      · subst hclose
        rw [readMembers?_close _ _ _ hskip, readMembers?_close _ _ _ hskip']
        split
        · exact behind_map _ rest
        next outer negated stack' _ _ =>
          cases closeBracket? f negated (reduceOperator f (gather members) stack).1 with
          | none => exact .refused
          | some closed => exact next _ _ (List.suffix_refl rest)
        · exact .refused
      by_cases hop : ∃ op : SetOp, c = op.sign ∧ rest.head? = some op.sign
      · obtain ⟨op, rfl, hhead⟩ := hop
        obtain ⟨rest, rfl⟩ := List.head?_eq_some_iff.mp hhead
        rw [readMembers?_operator _ _ _ hskip, readMembers?_operator _ _ _ hskip']
        exact (next _ _ (List.suffix_cons _ rest)).mono (List.suffix_cons _ rest)
      · have hmember (op : SetOp) (hc : c = op.sign) : rest.head? ≠ some op.sign :=
          fun hhead => hop ⟨op, hc, hhead⟩
        have hmember' (op : SetOp) (hc : c = op.sign) : (rest ++ [')']).head? ≠ some op.sign := by
          rw [Ne, head?_append_eq_some_iff (by cases op <;> decide)]
          exact hmember op hc
        rw [readMembers?_member _ _ _ hskip hopen hclose hmember,
          readMembers?_member _ _ _ hskip' hopen hclose hmember']
        exact (readMember?_behind f c rest).bind (fun _ _ hu => next _ _ hu)
          (fun _ => ⟨readMembers?_nil f bound _ _, readMembers?_nil f bound' _ _⟩)
          fun _ => readMembers?_paren f.skip_paren bound' _ _

theorem readBrackets?_eq [Engine] (f : Flags) (t : Text) :
    readBrackets? f t = (readOpening? f t).map together >>= fun x =>
      readMembers? f (x.2.length + 1) [.bracket [] x.1.1] x.1.2 x.2 := by
  rw [← together_bind]
  rfl

/-- `readMembers?_behind` behind the opening of a bracket: a set in brackets ends with its bracket, in
    front of the parenthesis. -/
theorem readBrackets?_behind [Engine] (f : Flags) (t : Text) :
    Behind t (readBrackets? f t) (readBrackets? f (t ++ [')'])) := by
  rw [readBrackets?_eq, readBrackets?_eq]
  refine (readOpening?_behind f t).bind (fun x rest _ => ?_) (fun x => ?_) fun x => ?_
  · exact readMembers?_behind f _ _ (Nat.lt_succ_self _) (by simp)
  · rw [readMembers?_nil]
    exact ⟨rfl, rfl⟩
  · exact readMembers?_paren f.skip_paren _ _ _

end Graft.Regex.Pattern
