import Graft.Proofs.Regex.Begin
import Graft.Proofs.Regex.Pattern.Runs
import Graft.Proofs.Regex.Place

/-!
# `Graft.Proofs.Regex.Anchored` — patterns tied to the start of the text

A pattern is tied to the start of the text by what is written around it: a test for the start and a group
(`Pattern.inGroup`). The reader opens the group before the pattern and wants to close it behind, so what it
makes of the whole is told by what it makes of the pattern (`term?_inGroup`), with two exceptions. A
comment that is open at the end of the pattern takes up the parenthesis that was to close the group
(`Commented`), and a pattern that closes more groups than it opens closes this one as well
(`ClosesTooMany`).

The expression in the group is then matched at the start of the text and nowhere else
(`Matcher.find?_textStart`).
-/

namespace Graft.Regex

namespace Pattern

variable {re : Text} {u v : Term}

/-- The pattern in a group after the test for the start. -/
def inGroup (re : Text) : Text :=
  "^(?:".toList ++ re ++ [')']

/-- What waits while the pattern in the group is read. -/
def anchor : Frame :=
  ⟨.standard, none, [], [.term ⟨.look .textStart, 0⟩]⟩

/-- What is read of a pattern in the group, if `u` is what is read of the pattern by itself. -/
def Term.inGroup (u : Term) : Term :=
  ⟨.seq (.look .textStart) u.regex, u.depth + 2⟩

/-- `leave?` at the end of the pattern closes the group and ends the whole. -/
theorem exists_ends_of_leave? {r : Reader} (hframes : r.frames = []) :
    ∃ r', (r.within [anchor]).leave? = some r' ∧ r'.Ends [] ∧ r'.whole = r.whole.inGroup := by
  unfold Reader.leave?
  rw [Reader.within_frames, hframes]
  refine ⟨_, rfl, ⟨Flags.skip_nil _, rfl⟩, ?_⟩
  show Term.mk (.seq (.look .textStart) r.whole.regex)
    (0 + max 0 (1 + max (max 0 0) (1 + r.whole.depth))) = _
  unfold Term.inGroup
  congr 1
  omega

variable [Engine]

/-- What a pattern is read as, whatever its size. -/
def term? (pattern : Text) : Option Term :=
  read? (pattern.length + 1) .start pattern

/-- A closing parenthesis comes where all groups of the pattern are closed. -/
def ClosesTooMany (re : Text) : Prop :=
  ClosesTooManyFrom .start re

/-- The first two steps through `inGroup`, which lead to the start of the pattern. -/
theorem runs_inGroup (re : Text) :
    Runs .start (inGroup re) (Reader.start.within [anchor]) (re ++ [')']) := by
  have hcaret : step? .start ("^(?:".toList ++ (re ++ [')'])) =
      some (Reader.start.push (.look .textStart) 0, "(?:".toList ++ (re ++ [')'])) := rfl
  have hgroup : step? (Reader.start.push (.look .textStart) 0) ("(?:".toList ++ (re ++ [')'])) =
      some (Reader.start.within [anchor], re ++ [')']) := rfl
  rw [inGroup, List.append_assoc]
  exact .step hcaret (.step hgroup (.refl _ _))

/-- A pattern that `ClosesTooMany` cannot be read by itself: no step closes a group where none is open
    (`frames_ne_nil_of_step?`). -/
theorem ClosesTooMany.term?_eq_none (h : ClosesTooMany re) : term? re = none := by
  obtain ⟨r, t, rest, hruns, hskip, hframes⟩ := h
  refine hruns.read?_eq_none (Nat.lt_succ_self _) ?_ ?_
  · rintro ⟨hnil, -⟩
    rw [hskip] at hnil
    cases hnil
  · rw [hskip]
    cases hstep : step? r (')' :: rest) with
    | none => rfl
    | some x => exact absurd hframes (frames_ne_nil_of_step? hstep rfl)

/-- The last step in the group: the parenthesis behind the pattern closes it, and nothing is left. -/
theorem term?_inGroup_of_step? {r r' : Reader} {t : Text} (hruns : Runs .start (re ++ [')']) r t)
    (hstep : step? (r.within [anchor]) (r.flags.skip t) = some (r', [])) (hends : r'.Ends []) :
    term? (inGroup re) = some r'.whole :=
  ((runs_inGroup re).trans ((hruns.within [anchor]).trans (.step hstep (.refl _ _)))).read?_eq_some
    hends (Nat.lt_succ_self _)

/-- Where the pattern goes on to the end behind the parenthesis, `anchor` is never closed. -/
theorem term?_of_swallowed {r : Reader} {t : Text} (hruns : Runs .start (re ++ [')']) r t)
    (hends : r.Ends t) : term? (inGroup re) = none ∧ term? (re ++ [')']) = some r.whole := by
  constructor
  · have hgroup := (runs_inGroup re).trans (hruns.within [anchor])
    refine hgroup.read?_eq_none (Nat.lt_succ_self _) ?_ ?_
    · rintro ⟨-, hframes⟩
      rw [Reader.within_frames, hends.2] at hframes
      cases hframes
    · rw [Reader.within_flags, hends.1]
      rfl
  · exact hruns.read?_eq_some hends (Nat.lt_succ_self _)

/-- What can be read by itself can be read in the group as well, unless a comment at its end takes up the
    parenthesis. Which of the two it is, `Runs.append` tells of the run through the pattern. -/
theorem term?_inGroup (h : term? re = some u) :
    (term? (inGroup re) = some u.inGroup ∧ term? (re ++ [')']) = none) ∨
    (term? (inGroup re) = none ∧ term? (re ++ [')']) = some u ∧ Commented re) := by
  obtain ⟨r, t, hruns, hends, rfl⟩ := exists_runs_of_read? h
  rcases hruns.append with ⟨hsuffix, hruns'⟩ | ⟨rfl, hruns', hcomment⟩
  · rcases r.flags.skip_cases t with ⟨s, -, hskip, hskip'⟩ | ⟨-, hskip', hcomment⟩
    · left
      -- the pattern has come to its end, and the parenthesis behind it is the next to be read
      obtain rfl := hskip.symm.trans hends.1
      obtain ⟨r', hleave, hends', hwhole⟩ := exists_ends_of_leave? hends.2
      have hstep : step? (r.within [anchor]) (r.flags.skip (t ++ [')'])) = some (r', []) := by
        rw [hskip']
        show (r.within [anchor]).leave?.map (·, []) = _
        rw [hleave]
        rfl
      have hclose : ClosesTooMany (re ++ [')']) := ⟨r, _, [], hruns', hskip', hends.2⟩
      rw [← hwhole]
      exact ⟨term?_inGroup_of_step? hruns' hstep hends', hclose.term?_eq_none⟩
    · obtain ⟨hgroup, hparen⟩ := term?_of_swallowed hruns' ⟨hskip', hends.2⟩
      exact .inr ⟨hgroup, hparen, hcomment.of_suffix hsuffix⟩
  · obtain ⟨hgroup, hparen⟩ := term?_of_swallowed hruns' hends
    exact .inr ⟨hgroup, hparen, hcomment⟩

/-- What can be read in the group can be read by itself, unless it closes the group on its own, by
    `Runs.of_within`. -/
theorem exists_term?_of_inGroup (h : term? (inGroup re) = some v) (hclose : ¬ ClosesTooMany re) :
    ∃ u, term? re = some u := by
  obtain ⟨r, t, hruns, hends, -⟩ := exists_runs_of_read? h
  have hgroup := (runs_inGroup re).of_ends hruns hends
  rcases hgroup.of_within (List.cons_ne_nil _ _) hends with ⟨r', t', hruns', hends'⟩ | htoo
  · exact ⟨_, hruns'.read?_eq_some hends' (Nat.lt_succ_self _)⟩
  · exact absurd htoo hclose

end Pattern

/-! ## Matches -/

/-- `find?` behind `textStart` is `matchAt?` at the start, since the test fails anywhere else. -/
theorem Matcher.find?_textStart (m : Matcher) (t : Text) :
    (seq (look .textStart) m).find? t = m.matchAt? (.start t) := by
  rw [find?_eq_matchAt? fun _ hx => fails_textStart m hx]
  rfl

/-- The preferred match of an expression that starts at a position of a text. The text has the rest
    `rest` there, and `before` is what shows of the text before. -/
def matchFrom? (e : Regex) (before : Option Char) (pos : Nat) (rest : Text) : Option Match :=
  (Matcher.ofRegex e).matchAt? ⟨before, rest, pos, [], []⟩

/-- What `matchFrom?` finds starts at its position. -/
theorem start_of_matchFrom? {e : Regex} {before : Option Char} {pos : Nat} {rest : Text} {m : Match}
    (h : e.matchFrom? before pos rest = some m) : m.span.start = pos := by
  obtain ⟨y, -, rfl⟩ := Matcher.exists_path_of_matchAt? h
  rfl

/-- `matchFrom?` does not look at what is `before`, if no test of the expression looks back. -/
theorem matchFrom?_eq {e : Regex} (h : e.looksAhead = true) (before before' : Option Char) (pos : Nat)
    (rest : Text) : e.matchFrom? before pos rest = e.matchFrom? before' pos rest :=
  Matcher.matchAt?_behind (Matcher.ahead_label h 0) ⟨before', rest, pos, [], []⟩ before

/-- The positions of a match and of what its first group matched, or the whole match if the group took
    no part. -/
def Match.bounds (m : Match) : Bounds :=
  ⟨((m.group? 1).getD m.span).start, ((m.group? 1).getD m.span).stop, m.span⟩

theorem Match.bounds_shift (d : Nat) (m : Match) : (m.shift d).bounds = m.bounds.shift d := by
  unfold bounds
  rw [group?_shift]
  cases m.group? 1 <;> rfl

end Graft.Regex
