import Graft.Grammar.Blueprint
import Graft.Proofs.Recognizer.Token
import Graft.Proofs.Regex.Anchored

/-!
# `Graft.Proofs.Grammar.UserPatterns` — patterns of the user's own

A pattern is put, as it is written, into a group after the test for the start. So it is accepted if it can
be read by itself, stays within the limits in the group and does not end in a comment that takes up the
parenthesis behind it, and it is accepted in no other case unless it closes the group on its own. An
accepted pattern then matches at its position and nowhere else, with the match that its expression prefers
there (`Grammar.pattern_faithful`). What stands before the position is not shown to it.

All of this holds for every `Engine`. The limits are the engine's own, and nothing ties the size of a
program in the group to that of the program by itself. So where the theorem speaks of patterns that are
valid by themselves, it asks that the engine judge both programs alike (`Pattern.LimitsAlike`).
-/

namespace Graft

namespace Regex

open Pattern (Term term? inGroup Commented ClosesTooMany)

variable {re : Text} {e : Regex}

/-- A program that begins with `textStart` finds at a position what its expression prefers there: by
    `Matcher.find?_textStart` no match starts further ahead. -/
theorem Program.scan?_textStart (e : Regex) {t rest : Text} {pos : Nat} (hrest : t.from? pos = some rest)
    (hpos : pos < t.size) :
    (Program.ofRegex (.seq (.look .textStart) e)).scan? t pos =
      (e.matchFrom? none pos rest).map Match.bounds := by
  have hfind : (Program.ofRegex (.seq (.look .textStart) e)).find? rest =
      (Matcher.ofRegex e).matchAt? (.start rest) := by
    rw [Program.find?_eq]
    exact Matcher.find?_textStart (Matcher.ofRegex e) rest
  have hplace : e.matchFrom? none pos rest =
      ((Matcher.ofRegex e).matchAt? (.start rest)).map (·.shift pos) :=
    Matcher.matchAt?_shift (Matcher.ofRegex e) pos (.start rest)
  rw [Program.scan?, if_pos hpos, hrest, Option.bind_some, hfind, hplace, Option.map_map]
  congr 1
  funext m
  exact (m.bounds_shift pos).symm

variable [Engine]

namespace Pattern

/-- The pattern ends with a comment, so that a parenthesis behind it is a part of the comment. -/
def EndsInComment (re : Text) : Prop :=
  ∃ u, term? re = some u ∧ term? (re ++ [')']) = some u

/-- Neither the depth nor the size of its program is against what has been read. -/
def Term.WithinLimits (u : Term) : Prop :=
  u.depth ≤ maxDepth ∧ Engine.fits u.regex

/-- The pattern can be read, and stays within the limits in the group. -/
def FitsInGroup (re : Text) : Prop :=
  ∃ u, term? re = some u ∧ u.inGroup.WithinLimits

/-- The group makes no difference to whether the pattern stays within the limits. -/
def LimitsAlike (re : Text) : Prop :=
  ∀ u, term? re = some u → (u.inGroup.WithinLimits ↔ u.WithinLimits)

/-- A pattern that `EndsInComment` has the sign of a comment behind its last newline. By `term?_inGroup`
    no other end takes a parenthesis up. -/
theorem EndsInComment.commented (h : EndsInComment re) : Commented re := by
  obtain ⟨u, hu, hparen⟩ := h
  rcases term?_inGroup hu with ⟨-, hnone⟩ | ⟨-, -, hcomment⟩
  · rw [hnone] at hparen
    cases hparen
  · exact hcomment

/-- What is read of a pattern in the group. There `term?_inGroup` says what becomes of a pattern that can
    be read, and `exists_term?_of_inGroup` that no other gets that far. -/
theorem term?_inGroup_eq_some_iff (hclose : ¬ ClosesTooMany re) {v : Term} :
    term? (inGroup re) = some v ↔
      ∃ u, term? re = some u ∧ ¬ EndsInComment re ∧ v = u.inGroup := by
  constructor
  · intro hv
    obtain ⟨u, hu⟩ := exists_term?_of_inGroup hv hclose
    rcases term?_inGroup hu with ⟨hgroup, hparen⟩ | ⟨hgroup, -⟩
    · refine ⟨u, hu, ?_, Option.some.inj (hv.symm.trans hgroup)⟩
      rintro ⟨w, -, hw⟩
      rw [hparen] at hw
      cases hw
    · rw [hv] at hgroup
      cases hgroup
  · rintro ⟨u, hu, hcomment, rfl⟩
    rcases term?_inGroup hu with ⟨hgroup, -⟩ | ⟨-, hparen, -⟩
    · exact hgroup
    · exact absurd ⟨u, hu, hparen⟩ hcomment

end Pattern

open Pattern (EndsInComment FitsInGroup LimitsAlike)

/-- A pattern is valid if `term?` reads it and the limits admit what is read. -/
theorem ofPattern?_eq_some_iff :
    ofPattern? re = some e ↔ ∃ u, term? re = some u ∧ u.WithinLimits ∧ u.regex = e := by
  have hread : ofPattern? re = term? re >>= fun u =>
      if u.depth ≤ Pattern.maxDepth ∧ Engine.fits u.regex then some u.regex else none := rfl
  rw [hread]
  cases term? re with
  | none => simp
  | some u => simp [Term.WithinLimits]

/-- `ofPattern?_eq_some_iff` for the pattern in the group. -/
theorem ofPattern?_inGroup (hclose : ¬ ClosesTooMany re) :
    ofPattern? (inGroup re) = some e ↔
      ∃ u, term? re = some u ∧ u.inGroup.WithinLimits ∧ ¬ EndsInComment re ∧ u.inGroup.regex = e := by
  rw [ofPattern?_eq_some_iff]
  constructor
  · rintro ⟨v, hv, hlimits, rfl⟩
    obtain ⟨u, hu, hcomment, rfl⟩ := (Pattern.term?_inGroup_eq_some_iff hclose).mp hv
    exact ⟨u, hu, hlimits, hcomment, rfl⟩
  · rintro ⟨u, hu, hlimits, hcomment, rfl⟩
    exact ⟨_, (Pattern.term?_inGroup_eq_some_iff hclose).mpr ⟨u, hu, hcomment, rfl⟩, hlimits, rfl⟩

/-- Under `LimitsAlike`, what `FitsInGroup` is what is valid by itself. -/
theorem Pattern.LimitsAlike.fitsInGroup_iff (h : LimitsAlike re) :
    FitsInGroup re ↔ ∃ e, ofPattern? re = some e := by
  constructor
  · rintro ⟨u, hu, hlimits⟩
    exact ⟨u.regex, ofPattern?_eq_some_iff.mpr ⟨u, hu, (h u hu).mp hlimits, rfl⟩⟩
  · rintro ⟨e, he⟩
    obtain ⟨u, hu, hlimits, -⟩ := ofPattern?_eq_some_iff.mp he
    exact ⟨u, hu, (h u hu).mpr hlimits⟩

end Regex

namespace Recognizer

open Regex

/-- `pattern` is `scan?`: bounds that a program finds always fit the text, by `fits_of_scan?`. -/
theorem result_pattern (p : Program) (t : Text) (pos : Nat) :
    (pattern p t pos).result = .ok ((p.scan? t pos).map fun b => .basic ⟨some b⟩) := by
  unfold pattern ofProgram
  cases hscan : p.scan? t pos with
  | none => rfl
  | some b =>
      obtain ⟨-, -, hfits⟩ := fits_of_scan? hscan
      show (Extent.ofRange t b.start b.stop b.span >>= fun x => pure (some (Element.basic x))).result = _
      rw [Extent.ofRange_of_fits hfits]
      rfl

end Recognizer

namespace Grammar

open Regex
open Pattern (term? EndsInComment FitsInGroup LimitsAlike ClosesTooMany)

section Engine

variable [Regex.Engine] {re : Text}

/-- Building a pattern either adds one rule or is refused, by `anchoredProgram?`. -/
theorem build_pattern (re : Text) (g : Grammar) :
    (Blueprint.pattern re).build g =
      match anchoredProgram? re with
      | none => .error (.invalidPattern re)
      | some p => .ok (((g.add (.pattern p) []).1, .pattern p), (g.add (.pattern p) []).2) := by
  rw [Blueprint.build]
  cases anchoredProgram? re <;> rfl

/-- The program that `anchoredProgram?` makes is that of the pattern in the group. -/
theorem anchoredProgram?_eq_some_iff (hclose : ¬ ClosesTooMany re) {p : Program} :
    anchoredProgram? re = some p ↔
      ∃ u, term? re = some u ∧ u.inGroup.WithinLimits ∧ ¬ EndsInComment re ∧
        p = .ofRegex (.seq (.look .textStart) u.regex) := by
  have hanchored : anchoredProgram? re = (ofPattern? (Pattern.inGroup re)).map Program.ofRegex := rfl
  rw [hanchored, Option.map_eq_some_iff]
  constructor
  · rintro ⟨e, he, rfl⟩
    obtain ⟨u, hu, hlimits, hcomment, rfl⟩ := (ofPattern?_inGroup hclose).mp he
    exact ⟨u, hu, hlimits, hcomment, rfl⟩
  · rintro ⟨u, hu, hlimits, hcomment, rfl⟩
    exact ⟨_, (ofPattern?_inGroup hclose).mpr ⟨u, hu, hlimits, hcomment, rfl⟩, rfl⟩

/-- The half of `pattern_faithful` that says which patterns are accepted. -/
theorem exists_build_pattern_iff (hclose : ¬ ClosesTooMany re) (g : Grammar) :
    (∃ built, (Blueprint.pattern re).build g = .ok built) ↔
      FitsInGroup re ∧ ¬ EndsInComment re := by
  rw [build_pattern]
  constructor
  · rintro ⟨built, hbuilt⟩
    split at hbuilt
    · cases hbuilt
    next p hp =>
      obtain ⟨u, hu, hlimits, hcomment, -⟩ := (anchoredProgram?_eq_some_iff hclose).mp hp
      exact ⟨⟨u, hu, hlimits⟩, hcomment⟩
  · rintro ⟨⟨u, hu, hlimits⟩, hcomment⟩
    rw [(anchoredProgram?_eq_some_iff hclose).mpr ⟨u, hu, hlimits, hcomment, rfl⟩]
    exact ⟨_, rfl⟩

/-- **Patterns.** Of a pattern that does not close more groups than it opens, whatever the `Engine`. It is
    accepted just if it `FitsInGroup` and does not end in a comment; under `LimitsAlike`, just if it is
    valid by itself and does not end in a comment. Its rule then answers at every position in the text
    with the match that the expression read from the pattern prefers there (`matchFrom?`), and with no
    match that starts elsewhere. Nothing shows of the text `before` the position; if the expression
    `looksAhead`, it makes no difference what shows of it. -/
theorem pattern_faithful (hclose : ¬ ClosesTooMany re) (g : Grammar) :
    ((∃ built, (Blueprint.pattern re).build g = .ok built) ↔
      FitsInGroup re ∧ ¬ EndsInComment re) ∧
    (LimitsAlike re →
      ((∃ built, (Blueprint.pattern re).build g = .ok built) ↔
        (∃ e, ofPattern? re = some e) ∧ ¬ EndsInComment re)) ∧
    ∀ id rule g', (Blueprint.pattern re).build g = .ok ((id, rule), g') →
      ∃ u, term? re = some u ∧
        ∀ resolve slots t pos rest before, t.from? pos = some rest → pos < t.size →
          before = none ∨ u.regex.looksAhead = true →
          (rule.parse resolve slots t pos).result =
              .ok ((u.regex.matchFrom? before pos rest).map fun m => .basic ⟨some m.bounds⟩) ∧
            ∀ found, (rule.parse resolve slots t pos).result = .ok (some found) →
              found.span.start = pos := by
  refine ⟨exists_build_pattern_iff hclose g, fun halike => ?_, fun id rule g' hbuilt => ?_⟩
  · rw [exists_build_pattern_iff hclose g, halike.fitsInGroup_iff]
  · rw [build_pattern] at hbuilt
    split at hbuilt
    · cases hbuilt
    next p hp =>
      obtain ⟨u, hu, -, -, rfl⟩ := (anchoredProgram?_eq_some_iff hclose).mp hp
      obtain ⟨hrule, -⟩ := Prod.mk.inj (Except.ok.inj hbuilt)
      obtain ⟨-, rfl⟩ := Prod.mk.inj hrule
      refine ⟨u, hu, fun resolve slots t pos rest before hrest hpos hbefore => ?_⟩
      have hplace : u.regex.matchFrom? before pos rest = u.regex.matchFrom? none pos rest := by
        rcases hbefore with rfl | hahead
        · rfl
        · exact matchFrom?_eq hahead before none pos rest
      have hresult : (Rule.parse resolve slots
            (.pattern (.ofRegex (.seq (.look .textStart) u.regex))) t pos).result =
          .ok ((u.regex.matchFrom? before pos rest).map fun m => .basic ⟨some m.bounds⟩) := by
        show (Recognizer.pattern _ t pos).result = _
        rw [Recognizer.result_pattern, Program.scan?_textStart u.regex hrest hpos, hplace,
          Option.map_map]
        rfl
      refine ⟨hresult, fun found hfound => ?_⟩
      obtain ⟨m, hm, rfl⟩ := Option.map_eq_some_iff.mp (Except.ok.inj (hresult.symm.trans hfound))
      exact start_of_matchFrom? hm

end Engine

/-- `pattern_faithful` for an alternation, which is tied to its position as a whole: its second
    alternative is found there, and not from further ahead. -/
theorem pattern_faithful_alternation : ¬ ClosesTooMany ['a', '|', 'b'] ∧ LimitsAlike ['a', '|', 'b'] ∧
    ∃ id rule g', (Blueprint.pattern ['a', '|', 'b']).build .empty = .ok ((id, rule), g') ∧
      (rule.parse (fun _ => .undefined) 0 ['x', 'b'] 0).result = .ok none ∧
      (rule.parse (fun _ => .undefined) 0 ['x', 'b'] 1).result =
        .ok (some (.basic ⟨some ⟨1, 2, ⟨1, 2⟩⟩⟩)) := by
  have hterm : term? ['a', '|', 'b'] = some ⟨.alt (.set (.char 'a')) (.set (.char 'b')), 1⟩ := rfl
  have hclose : ¬ ClosesTooMany ['a', '|', 'b'] := fun h => nomatch h.term?_eq_none
  have hlimits : (Pattern.Term.mk (.alt (.set (.char 'a')) (.set (.char 'b'))) 1).WithinLimits :=
    ⟨by decide, by decide⟩
  have halike : LimitsAlike ['a', '|', 'b'] := by
    intro u hu
    obtain rfl := Option.some.inj (hterm.symm.trans hu)
    exact iff_of_true ⟨by decide, by decide⟩ hlimits
  have hcomment : ¬ EndsInComment ['a', '|', 'b'] :=
    fun h => absurd h.commented.mem (by decide)
  have hvalid : ∃ e, ofPattern? ['a', '|', 'b'] = some e :=
    ⟨_, ofPattern?_eq_some_iff.mpr ⟨_, hterm, hlimits, rfl⟩⟩
  obtain ⟨-, haccepted, hmatch⟩ := pattern_faithful hclose .empty
  obtain ⟨⟨⟨id, rule⟩, g'⟩, hbuilt⟩ := (haccepted halike).mpr ⟨hvalid, hcomment⟩
  obtain ⟨u, hu, hat⟩ := hmatch id rule g' hbuilt
  obtain rfl := Option.some.inj (hterm.symm.trans hu)
  have hstart := (hat (fun _ => .undefined) 0 ['x', 'b'] 0 _ none rfl (by decide) (.inl rfl)).1
  have hlater := (hat (fun _ => .undefined) 0 ['x', 'b'] 1 _ (some 'x') rfl (by decide) (.inr rfl)).1
  exact ⟨hclose, halike, id, rule, g', hbuilt, hstart, hlater⟩

/-- Neither condition of `pattern_faithful` can be left out. A parenthesis that is not valid by itself
    closes the group, and what stands behind it is no longer tied to the position; a comment that is valid
    by itself takes up the parenthesis of the group. -/
theorem pattern_breaks_group :
    (ofPattern? ['a', ')', '|', '(', 'b'] = none ∧
      ∃ id rule g', (Blueprint.pattern ['a', ')', '|', '(', 'b']).build .empty =
          .ok ((id, rule), g') ∧
        (rule.parse (fun _ => .undefined) 0 ['x', 'b'] 0).result =
          .ok (some (.basic ⟨some ⟨1, 2, ⟨1, 2⟩⟩⟩))) ∧
    (∃ e, ofPattern? ['(', '?', 'x', ')', 'b', '#'] = some e) ∧
      (Blueprint.pattern ['(', '?', 'x', ')', 'b', '#']).build .empty =
        .error (.invalidPattern ['(', '?', 'x', ')', 'b', '#']) := by
  obtain ⟨p, hp⟩ : ∃ p, anchoredProgram? ['a', ')', '|', '(', 'b'] = some p := ⟨_, rfl⟩
  have hbuilt : (Blueprint.pattern ['a', ')', '|', '(', 'b']).build .empty =
      .ok (((Grammar.empty.add (.pattern p) []).1, .pattern p),
        (Grammar.empty.add (.pattern p) []).2) := by
    rw [build_pattern, hp]
  have hrefused : anchoredProgram? ['(', '?', 'x', ')', 'b', '#'] = none := rfl
  refine ⟨⟨rfl, _, _, _, hbuilt, ?_⟩, ⟨_, rfl⟩, ?_⟩
  · cases hp
    rfl
  · rw [build_pattern, hrefused]

end Grammar

end Graft
