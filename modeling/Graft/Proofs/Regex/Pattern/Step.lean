import Graft.Proofs.Regex.Pattern.Members

/-!
# `Graft.Proofs.Regex.Pattern.Step` — a parenthesis behind what one step reads

Each step of the reader takes the same up with a parenthesis behind the pattern as without
(`step?_behind`), but for a word edge in front of a brace that is never closed: there the next step is
refused (`StopsAtBrace.step?_eq_none`).
-/

namespace Graft.Regex.Pattern

variable {α β : Type} {s t : Text} {f : Flags} {r r' : Reader}

/-! ## Repetitions -/

theorem readGreed_behind (t : Text) :
    Behind t (some (readGreed t)) (some (readGreed (t ++ [')']))) := by
  cases t with
  | nil => exact .kept true List.nil_suffix
  | cons c rest =>
      by_cases hc : c = '?'
      · subst hc
        exact .kept false (List.suffix_cons '?' rest)
      · have hplain (u : Text) : readGreed (c :: u) = (true, c :: u) := by
          simp [readGreed, hc]
        rw [List.cons_append, hplain, hplain]
        exact .kept true (List.suffix_refl _)

theorem readDigits_eq (f : Flags) (bound : Nat) (t : Text) :
    readDigits f bound t = readRun Char.isDigit f bound t := by
  induction bound generalizing t with
  | zero => rfl
  | succ bound ih =>
      cases t with
      | nil => rfl
      | cons c rest =>
          unfold readDigits readRun
          dsimp only
          rw [ih]
          rfl

theorem skipSpaces_eq (f : Flags) (bound : Nat) (t : Text) :
    skipSpaces f bound t = (readRun Unicode.isWhiteSpace f bound t).2 := by
  induction bound generalizing t with
  | zero => rfl
  | succ bound ih =>
      cases t with
      | nil => rfl
      | cons c rest =>
          unfold skipSpaces readRun
          dsimp only
          rw [ih]
          split <;> rfl

/-- The bound that some digits stand for. -/
def boundOf? : Text → Option (Option Nat)
  | [] => some none
  | digits =>
      if Nat.ofDigitChars 10 digits 0 < Nat.pow 2 32 then some (some (Nat.ofDigitChars 10 digits 0))
      else none

/-- A bound without white space in front. -/
def readBoundHere? (f : Flags) (t : Text) : Option (Option Nat × Text) :=
  some (readDigits f t.length t) >>= fun x =>
    (boundOf? x.1).map (·, skipSpaces f x.2.length x.2)

theorem readBound?_eq (f : Flags) (t : Text) :
    readBound? f t = readBoundHere? f (t.dropWhile Unicode.isWhiteSpace) := by
  unfold readBound? readBoundHere?
  generalize t.dropWhile Unicode.isWhiteSpace = t
  dsimp only
  generalize readDigits f t.length t = x
  obtain ⟨digits, rest⟩ := x
  cases digits with
  | nil => rfl
  | cons c more =>
      show (if _ then _ else _) = Option.map _ (if _ then _ else _)
      split <;> rfl

/-- A bound of a repetition is a number with white space around it, neither of which takes a parenthesis
    up. -/
theorem readBound?_behind (f : Flags) (t : Text) :
    Behind t (readBound? f t) (readBound? f (t ++ [')'])) := by
  rw [readBound?_eq, readBound?_eq, dropWhile_isWhiteSpace_append]
  refine Behind.mono ?_ (List.dropWhile_suffix Unicode.isWhiteSpace)
  generalize t.dropWhile Unicode.isWhiteSpace = t
  unfold readBoundHere?
  rw [readDigits_eq, readDigits_eq]
  refine (readRun_behind rfl f (Nat.le_refl _) (by simp)).bind fun digits u _ => ?_
  dsimp only
  rw [skipSpaces_eq, skipSpaces_eq]
  cases boundOf? digits with
  | none => exact .refused
  | some n =>
      exact (readRun_behind rfl f (Nat.le_refl u.length) (show u.length + 1 ≤ _ by simp)).map
        fun _ => n

/-- The parenthesis alone begins no `readBounds?`. -/
theorem readBounds?_paren (h : f.skip t = [')']) : readBounds? f t = none := by
  have hbound : readBound? f [')'] = some (none, [')']) := rfl
  unfold readBounds?
  rw [h, hbound]
  rfl

/-- The greatest number of rounds, up to the closing brace. -/
def lastBound? (least : Nat) (x : Option Nat × Text) : Option (Nat × Option Nat × Text) := do
  let most ← x.1
  match x.2 with
  | '\x7d' :: rest => if least ≤ most then some (least, some most, rest) else none
  | _ => none

/-- The bounds behind the comma. -/
def boundsFrom? (f : Flags) (least : Nat) (t : Text) : Option (Nat × Option Nat × Text) :=
  match t with
  | '\x7d' :: rest => some (least, none, rest)
  | rest => readBound? f rest >>= lastBound? least

/-- The bounds behind the least number of rounds. -/
def boundsAfter? (f : Flags) (x : Option Nat × Text) : Option (Nat × Option Nat × Text) := do
  let least ← x.1
  match x.2 with
  | '\x7d' :: rest => some (least, some least, rest)
  | ',' :: rest => boundsFrom? f least (f.skip rest)
  | _ => none

theorem readBounds?_eq (f : Flags) (t : Text) :
    readBounds? f t = readBound? f (f.skip t) >>= boundsAfter? f := rfl

theorem lastBound?_behind (least : Nat) (most : Option Nat) (t : Text) :
    Behind t ((lastBound? least (most, t)).map together)
      ((lastBound? least (most, t ++ [')'])).map together) := by
  cases most with
  | none => exact .refused
  | some most =>
      cases t with
      | nil => exact .refused
      | cons c rest =>
          by_cases hc : c = '\x7d'
          · subst hc
            show Behind _ (Option.map _ (if _ then _ else _)) (Option.map _ (if _ then _ else _))
            split
            · exact .kept _ (List.suffix_cons _ rest)
            · exact .refused
          · have hnone (u : Text) : lastBound? least (some most, c :: u) = none := by
              simp [lastBound?, hc]
            rw [List.cons_append, hnone, hnone]
            exact .refused

theorem boundsFrom?_behind (f : Flags) (least : Nat) (t : Text) :
    Behind t ((boundsFrom? f least t).map together)
      ((boundsFrom? f least (t ++ [')'])).map together) := by
  have hread : Behind t ((readBound? f t >>= lastBound? least).map together)
      ((readBound? f (t ++ [')']) >>= lastBound? least).map together) := by
    rw [Option.bind_eq_bind, Option.map_bind, Option.map_bind]
    exact (readBound?_behind f t).bind fun most u _ => lastBound?_behind least most u
  cases t with
  | nil => exact hread
  | cons c rest =>
      by_cases hc : c = '\x7d'
      · subst hc
        exact .kept _ (List.suffix_cons _ rest)
      · have hplain (u : Text) : boundsFrom? f least (c :: u) =
            readBound? f (c :: u) >>= lastBound? least := by
          simp [boundsFrom?, hc]
        rw [List.cons_append, hplain, hplain]
        exact hread

theorem boundsAfter?_behind (f : Flags) (least : Option Nat) (t : Text) :
    Behind t ((boundsAfter? f (least, t)).map together)
      ((boundsAfter? f (least, t ++ [')'])).map together) := by
  cases least with
  | none => exact .refused
  | some least =>
      cases t with
      | nil => exact .refused
      | cons c rest =>
          by_cases hbrace : c = '\x7d'
          · subst hbrace
            exact .kept _ (List.suffix_cons _ rest)
          by_cases hcomma : c = ','
          · subst hcomma
            refine Behind.mono ?_ (List.suffix_cons _ rest)
            exact Behind.skip (fun u _ => boundsFrom?_behind f least u) f
          · have hnone (u : Text) : boundsAfter? f (some least, c :: u) = none := by
              simp [boundsAfter?, hbrace, hcomma]
            rw [List.cons_append, hnone, hnone]
            exact .refused

/-- `readBounds?` ends with a closing brace, in front of the parenthesis. The two bounds are read by
    `readBound?_behind`. -/
theorem readBounds?_behind (f : Flags) (t : Text) :
    Behind t ((readBounds? f t).map together) ((readBounds? f (t ++ [')'])).map together) := by
  rw [readBounds?_eq, readBounds?_eq, Option.bind_eq_bind, Option.map_bind, Option.map_bind]
  refine Behind.bind ?_ fun least u _ => boundsAfter?_behind f least u
  exact Behind.skip (fun u _ => readBound?_behind f u) f

/-! ## Groups -/

/-- The letters of flags end with a sign of their own, in front of any parenthesis behind the pattern. -/
theorem readFlags?_behind (negated pending : Bool) (given : List (Char × Bool)) (t : Text) :
    Behind t ((readFlags? negated pending given t).map together)
      ((readFlags? negated pending given (t ++ [')'])).map together) := by
  induction t generalizing negated pending given with
  | nil =>
      cases pending with
      | false => exact .used _
      | true => exact .refused
  | cons c rest ih =>
      have hrest := List.suffix_cons c rest
      rw [List.cons_append]
      unfold readFlags?
      split
      · split
        · exact .refused
        · exact .kept _ hrest
      · split
        · split
          · exact .refused
          · exact (ih true true given).mono hrest
        · split
          · exact .refused
          · exact (ih negated false _).mono hrest

theorem enterNamed?_behind (r : Reader) (t : Text) :
    Behind t (enterNamed? r t) (enterNamed? r (t ++ [')'])) := by
  have hsuffix := List.dropWhile_suffix (l := t) (· ≠ '>')
  unfold enterNamed?
  cases h : t.dropWhile (· ≠ '>') with
  | nil =>
      rw [List.dropWhile_append, h]
      exact .refused
  | cons c rest =>
      obtain ⟨htake, hdrop⟩ := takeWhile_dropWhile_append h [')']
      rw [h] at hsuffix
      rw [htake, hdrop]
      dsimp only
      split
      · exact .kept _ (tail_suffix hsuffix).1
      · exact .refused

/-- What a list of flags makes of the reader: a group, or other flags for the rest of one. -/
def changeFlags? (r : Reader) (x : (List (Char × Bool) × Char) × Text) : Option (Reader × Text) :=
  r.flags.change? x.1.1 >>= fun flags =>
    if x.1.2 = ':' then some (r.enter flags none, x.2)
    else if x.1.1.isEmpty then none
    else some ({ r with flags := flags, items := .flags :: r.items }, x.2)

theorem changeFlags?_behind (r : Reader) (x : List (Char × Bool) × Char) (t : Text) :
    Behind t (changeFlags? r (x, t)) (changeFlags? r (x, t ++ [')'])) := by
  unfold changeFlags?
  cases r.flags.change? x.1 with
  | none => exact .refused
  | some flags =>
      show Behind t (if _ then _ else if _ then _ else _) (if _ then _ else if _ then _ else _)
      split
      · exact .kept _ (List.suffix_refl t)
      · split
        · exact .refused
        · exact .kept _ (List.suffix_refl t)

/-- What a list of flags behind the question mark introduces. -/
def openFlags? (r : Reader) (t : Text) : Option (Reader × Text) :=
  (readFlags? false false [] t).map together >>= changeFlags? r

theorem openFlags?_behind (r : Reader) (t : Text) :
    Behind t (openFlags? r t) (openFlags? r (t ++ [')'])) :=
  (readFlags?_behind false false [] t).bind fun x u _ => changeFlags?_behind r x u

/-- What a question mark behind the opening parenthesis introduces. -/
def openMarked? (r : Reader) : Text → Option (Reader × Text)
  | '=' :: _ | '!' :: _ | '<' :: '=' :: _ | '<' :: '!' :: _ => none
  | 'P' :: '<' :: rest | '<' :: rest => enterNamed? r rest
  | t => openFlags? r t

/-- What an opening parenthesis introduces, where no blanks come first. -/
def openHere? (r : Reader) : Text → Option (Reader × Text)
  | '?' :: rest => openMarked? r rest
  | t => some (r.enterCapture, t)

theorem openGroup?_eq (r : Reader) (t : Text) : openGroup? r t = openHere? r (r.flags.skip t) := by
  have hflags (u : Text) : openFlags? r u = (readFlags? false false [] u).bind fun x =>
      changeFlags? r (together x) :=
    (together_bind _ (changeFlags? r)).symm
  unfold openGroup?
  generalize r.flags.skip t = t
  cases t with
  | nil => rfl
  | cons c rest =>
      by_cases hc : c = '?'
      · subst hc
        show _ = openMarked? r rest
        unfold openMarked?
        split <;> simp_all [changeFlags?, together]
      · simp [openHere?, hc]

/-- A group with a mark behind its parenthesis: flags, a name, or neither. -/
theorem openMarked?_behind (r : Reader) (t : Text) :
    Behind t (openMarked? r t) (openMarked? r (t ++ [')'])) := by
  cases t with
  | nil => exact openFlags?_behind r []
  | cons c rest =>
      have hrest := List.suffix_cons c rest
      by_cases hequal : c = '=' ∨ c = '!'
      · rcases hequal with rfl | rfl <;> exact .refused
      by_cases hless : c = '<'
      · subst hless
        by_cases htest : rest.head? = some '=' ∨ rest.head? = some '!'
        · rcases htest with hhead | hhead <;>
          · obtain ⟨rest, rfl⟩ := List.head?_eq_some_iff.mp hhead
            exact .refused
        · have hnamed (u : Text) (hequal : u.head? ≠ some '=') (hbang : u.head? ≠ some '!') :
              openMarked? r ('<' :: u) = enterNamed? r u := by
            cases u with
            | nil => rfl
            | cons d u => simp_all [openMarked?]
          rw [not_or] at htest
          rw [List.cons_append, hnamed rest htest.1 htest.2, hnamed (rest ++ [')'])]
          · exact (enterNamed?_behind r rest).mono hrest
          · rw [Ne, head?_append_eq_some_iff (by decide)]
            exact htest.1
          · rw [Ne, head?_append_eq_some_iff (by decide)]
            exact htest.2
      by_cases hnamed : c = 'P' ∧ rest.head? = some '<'
      · obtain ⟨rfl, hhead⟩ := hnamed
        obtain ⟨rest, rfl⟩ := List.head?_eq_some_iff.mp hhead
        exact (enterNamed?_behind r rest).mono (tail_suffix hrest).1
      · have hplain (u : Text) (hu : c = 'P' → u.head? ≠ some '<') : openMarked? r (c :: u) =
            openFlags? r (c :: u) := by
          cases u with
          | nil => simp_all [openMarked?]
          | cons d u => simp_all [openMarked?]
        have hnot (hc : c = 'P') : rest.head? ≠ some '<' := fun hhead => hnamed ⟨hc, hhead⟩
        rw [List.cons_append, hplain rest hnot, hplain (rest ++ [')'])]
        · exact openFlags?_behind r (c :: rest)
        · intro hc
          rw [Ne, head?_append_eq_some_iff (by decide)]
          exact hnot hc

/-- `openGroup?` looks at up to four characters, none of which is the parenthesis; then flags or a name
    follow. -/
theorem openGroup?_behind (r : Reader) (t : Text) :
    Behind t (openGroup? r t) (openGroup? r (t ++ [')'])) := by
  rw [openGroup?_eq, openGroup?_eq]
  refine Behind.skip (fun u _ => ?_) r.flags
  cases u with
  | nil => exact .kept _ List.nil_suffix
  | cons c rest =>
      by_cases hc : c = '?'
      · subst hc
        exact (openMarked?_behind r rest).mono (List.suffix_cons _ rest)
      · have hplain (v : Text) : openHere? r (c :: v) = some (r.enterCapture, c :: v) := by
          simp [openHere?, hc]
        rw [List.cons_append, hplain, hplain]
        exact .kept _ (List.suffix_refl _)

/-! ## Steps -/

/-- The last step of a pattern may read a word edge in front of a brace that only the parenthesis makes
    the start of a repetition. -/
def StopsAtBrace (o o' : Option (Reader × Text)) : Prop :=
  o = none ∧ ∃ r inner, o' = some (r, '\x7b' :: inner) ∧ r.flags.skip inner = [')']

/-- The reader after a repetition, with the sign of greed behind it read. -/
def repeatAs? (r : Reader) (least : Nat) (most : Option Nat) (x : Bool × Text) :
    Option (Reader × Text) := do
  return (← r.repeat? x.1 least most, x.2)

theorem repeatAs?_behind (r : Reader) (least : Nat) (most : Option Nat) (t : Text) :
    Behind t (repeatAs? r least most (readGreed t)) (repeatAs? r least most (readGreed (t ++ [')']))) := by
  refine (readGreed_behind t).bind (k := repeatAs? r least most) fun greedy u _ => ?_
  unfold repeatAs?
  cases r.repeat? greedy least most with
  | none => exact .refused
  | some r => exact .kept r (List.suffix_refl u)

theorem step?_brace [Engine] (r : Reader) (rest : Text) :
    step? r ('\x7b' :: rest) = (readBounds? r.flags rest).map together >>= fun x =>
      repeatAs? r x.1.1 x.1.2 (readGreed (r.flags.skip x.2)) := by
  rw [← together_bind]
  rfl

/-- Every step is `Behind`, but for an escape that `StopsAtBrace`. One case for each character that means
    something. -/
theorem step?_behind [Engine] (r : Reader) (c : Char) (rest : Text) :
    Behind rest (step? r (c :: rest)) (step? r (c :: (rest ++ [')']))) ∨
      StopsAtBrace (step? r (c :: rest)) (step? r (c :: (rest ++ [')']))) := by
  -- a step stops at a brace only behind an escape
  by_cases hescape : c = '\\'
  · subst hescape
    have hpush (u : Text) : step? r ('\\' :: u) = readEscape? r.flags u >>= fun x =>
        some (r.push (r.flags.atom x.1) 0, x.2) := rfl
    rw [hpush, hpush]
    cases rest with
    | nil => exact .inl (.used _)
    | cons d rest =>
        rcases readEscape?_behind r.flags d rest with h | ⟨h, l, inner, h', hinner⟩
        · left
          refine Behind.mono ?_ (List.suffix_cons d rest)
          exact h.bind fun a u _ => .kept _ (List.suffix_refl u)
        · right
          rw [h, List.cons_append, h']
          exact ⟨rfl, r.push (.look l) 0, inner, rfl, hinner⟩
  left
  by_cases hbrace : c = '\x7b'
  · subst hbrace
    rw [step?_brace, step?_brace]
    refine (readBounds?_behind r.flags rest).bind fun bounds u _ => ?_
    exact Behind.skip (fun v _ => repeatAs?_behind r bounds.1 bounds.2 v) r.flags
  unfold step?
  dsimp only
  split
  · exact openGroup?_behind r rest
  · cases r.leave? with
    | none => exact .refused
    | some r => exact .kept r (List.suffix_refl rest)
  · exact .kept _ (List.suffix_refl rest)
  · exact (readBrackets?_behind r.flags rest).bind fun s u _ =>
      .kept (r.push (.set s.set) s.depth) (List.suffix_refl u)
  · exact repeatAs?_behind r 0 (some 1) rest
  · exact repeatAs?_behind r 0 none rest
  · exact repeatAs?_behind r 1 none rest
  · exact absurd rfl hbrace
  · cases r.flags.dot? with
    | none => exact .refused
    | some dot => exact .kept (r.push dot 0) (List.suffix_refl rest)
  · exact .kept _ (List.suffix_refl rest)
  · exact .kept _ (List.suffix_refl rest)
  · exact absurd rfl hescape
  · exact .kept _ (List.suffix_refl rest)

/-- Where a step `StopsAtBrace`, the next one is refused: behind the brace stands only the parenthesis
    (`readBounds?_paren`). -/
theorem StopsAtBrace.step?_eq_none [Engine] {o : Option (Reader × Text)} {rest : Text}
    (h : StopsAtBrace o (some (r', rest))) (hflags : r.flags = r'.flags) :
    step? r (r.flags.skip rest) = none := by
  obtain ⟨-, r'', inner, heq, hinner⟩ := h
  obtain ⟨rfl, rfl⟩ := Prod.mk.inj (Option.some.inj heq)
  rw [← hflags] at hinner
  have hskip : r.flags.skip ('\x7b' :: inner) = '\x7b' :: inner := by
    unfold Flags.skip
    split <;> rfl
  rw [hskip, step?_brace, readBounds?_paren hinner]
  rfl

end Graft.Regex.Pattern
