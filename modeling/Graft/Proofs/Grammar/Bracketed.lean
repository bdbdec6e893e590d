import Graft.Proofs.Grammar.SpelledOut

/-!
# `Graft.Proofs.Grammar.Bracketed` — sequences in brackets

A sequence can be cut into runs, these into shorter runs, and so on, and a join made of every run
(`Rule.Bracketed`). However the brackets are put, nothing changes about what is read
(`Grammar.join_bracketed`): the join of joins answers where the join of all the rules does, takes up and
holds the same text, and has the same elements at the bottom.

A bracketed run starts where its first element starts and ends where its last one does, and its span
ends where the run ended. That is all the rules around it go by (`Agree`). The brackets would be seen
only if a run had no place in the text, because the rule behind it would then start over; from a place
where the text can be cut, no run comes to that.
-/

namespace Graft

namespace Rule

/-! ## Brackets -/

/-- A sequence with brackets: a rule that stands alone, or a run of at least one part in a pair of
    brackets. -/
inductive Bracketed
  | alone (r : Rule)
  | run (first : Bracketed) (others : List Bracketed)
deriving Repr

namespace Bracketed

mutual

/-- The rule in which every pair of brackets is a join. -/
def rule : Bracketed → Rule
  | alone r => r
  | run first others => .join (first.rule :: rules others)

def rules : List Bracketed → List Rule
  | [] => []
  | b :: rest => b.rule :: rules rest

end

mutual

/-- The rules without the brackets. -/
def leaves : Bracketed → List Rule
  | alone r => [r]
  | run first others => first.leaves ++ leavesAll others

def leavesAll : List Bracketed → List Rule
  | [] => []
  | b :: rest => b.leaves ++ leavesAll rest

end

mutual

/-- The elements of the rules that stand alone, in order, out of an element with a join for every pair
    of brackets. No other element has any. -/
def elements? : Bracketed → Element → Option (List Element)
  | alone _, e => some [e]
  | run first others, .join _ (e :: rest) => do
      return (← first.elements? e) ++ (← elementsAll? others rest)
  | run .., _ => none

def elementsAll? : List Bracketed → List Element → Option (List Element)
  | [], [] => some []
  | b :: others, e :: rest => do return (← b.elements? e) ++ (← elementsAll? others rest)
  | _, _ => none

end

theorem elements?_run (first : Bracketed) (others : List Bracketed) (x : Extent)
    (items : List Element) :
    (run first others).elements? (.join x items) = elementsAll? (first :: others) items := by
  cases items <;> rfl

theorem leaves_ne_nil : ∀ b : Bracketed, b.leaves ≠ []
  | alone r => by simp [leaves]
  | run first others => by simp [leaves, leaves_ne_nil first]

end Bracketed

end Rule

open Rule (Bracketed)
open Rule.Bracketed (elementsAll? leavesAll)

namespace Recognizer

variable {t : Text} {pos : Nat}

/-! ## What the rules around a run go by -/

/-- Where the first of some elements starts. -/
def startOf? (items : List Element) : Option Nat :=
  items.head?.map Element.start

/-- Where the last of some elements ends. -/
def stopOf? (items : List Element) : Option Nat :=
  items.getLast?.map Element.stop

/-- `Extent.ofItems` looks at the two ends of the items only, which `startOf?` and `stopOf?` find. -/
theorem ofItems_eq (t : Text) (items : List Element) (span : Span) :
    Extent.ofItems t items span
      = match startOf? items, stopOf? items with
        | some start, some stop => Extent.ofRange t start stop span
        | _, _ => pure .invalid := by
  unfold Extent.ofItems startOf? stopOf?
  cases items.head? <;> cases items.getLast? <;> rfl

theorem startOf?_append (items more : List Element) :
    startOf? (items ++ more) = (startOf? items).or (startOf? more) := by
  rw [startOf?, startOf?, startOf?, List.head?_append]
  cases items.head? <;> rfl

theorem stopOf?_append (items more : List Element) :
    stopOf? (items ++ more) = (stopOf? more).or (stopOf? items) := by
  rw [stopOf?, stopOf?, stopOf?, List.getLast?_append]
  cases more.getLast? <;> rfl

/-! ## Runs next to what is in them -/

/-- What a sequence of bracketed runs comes to, next to what the rules without the brackets come to. If
    both read something, they come to the same place, the elements are the same but for the brackets,
    and start and end at the same places. -/
inductive Agree (bs : List Bracketed) :
    Except Halt (Option (List Element × Nat)) → Except Halt (Option (List Element × Nat)) → Prop
  | stopped (halt : Halt) : Agree bs (.error halt) (.error halt)
  | missed : Agree bs (.ok none) (.ok none)
  | found {runs items : List Element} {stop : Nat} (helements : elementsAll? bs runs = some items)
      (hstart : startOf? runs = startOf? items) (hstop : stopOf? runs = stopOf? items) :
      Agree bs (.ok (some (runs, stop))) (.ok (some (items, stop)))

theorem exists_of_elementsAll?_singleton {b : Bracketed} {runs items : List Element}
    (h : elementsAll? [b] runs = some items) : ∃ e, runs = [e] ∧ b.elements? e = some items := by
  rcases runs with _ | ⟨e, _ | ⟨e', rest⟩⟩
  · cases h
  · refine ⟨e, rfl, ?_⟩
    cases he : b.elements? e with
    | none => simp [elementsAll?, he] at h
    | some found => simpa [elementsAll?, he] using h
  · simp [elementsAll?] at h

/-- The base case of `Agree`: a rule that stands `alone` is its own only leaf. -/
theorem agree_alone (r : Rule) (p : Recognizer) :
    Agree [.alone r] (runAll t [p] pos).result (runAll t [p] pos).result := by
  rw [runAll_singleton]
  rcases (p t pos).result with halt | _ | e
  · exact .stopped halt
  · exact .missed
  · exact .found rfl rfl rfl

/-- `Agree` for one `Bracketed` more in front. `runAll_append` splits the run over the leaves in the same
    place. -/
theorem Agree.cons {b : Bracketed} {bs : List Bracketed} {p : Recognizer}
    {ps leaves qs : List Recognizer}
    (h : Agree [b] (runAll t [p] pos).result (runAll t leaves pos).result)
    (hrest : ∀ runs stop, (runAll t [p] pos).result = .ok (some (runs, stop)) →
      Agree bs (runAll t ps stop).result (runAll t qs stop).result) :
    Agree (b :: bs) (runAll t (p :: ps) pos).result (runAll t (leaves ++ qs) pos).result := by
  rw [← List.singleton_append (x := p), runAll_append, runAll_append]
  generalize (runAll t [p] pos).result = nested at h hrest
  generalize (runAll t leaves pos).result = flat at h
  cases h with
  | stopped halt => exact .stopped halt
  | missed => exact .missed
  | @found runs items stop helements hstart hstop =>
      obtain ⟨e, rfl, he⟩ := exists_of_elementsAll?_singleton helements
      have hmore := hrest [e] stop rfl
      show Agree (b :: bs) ((runAll t ps stop).result.map _) ((runAll t qs stop).result.map _)
      generalize (runAll t ps stop).result = nested at hmore
      generalize (runAll t qs stop).result = flat at hmore
      cases hmore with
      | stopped halt => exact .stopped halt
      | missed => exact .missed
      | found helements' hstart' hstop' =>
          refine .found ?_ ?_ ?_
          · simp [elementsAll?, he, helements']
          · rw [startOf?_append, startOf?_append, hstart, hstart']
          · rw [stopOf?_append, stopOf?_append, hstop, hstop']

/-- `Agree` for brackets around some runs: `join` reads them all, and where the text can be cut it makes a
    valid extent of their two ends. These are the ends of the leaves by `startOf?_append` and
    `stopOf?_append`. -/
theorem Agree.run {first : Bracketed} {others : List Bracketed} {ps : List Recognizer}
    {flat : Except Halt (Option (List Element × Nat))} (hps : ps ≠ []) (hsound : ∀ p ∈ ps, Sound p)
    (hpos : t.isBoundary pos = true)
    (h : Agree (first :: others) (runAll t ps pos).result flat) :
    Agree [.run first others] (runAll t [join ps] pos).result flat := by
  have hplaced (e : Element) (he : (join ps t pos).result = .ok (some e)) : e.isValid = true :=
    (sound_of_boundary (sound_join hsound t pos _ he) hpos).2.placed.valid
  rw [runAll_singleton]
  rw [join_eq hps] at hplaced ⊢
  generalize (runAll t ps pos).result = nested at h hplaced
  cases h with
  | stopped halt => exact .stopped halt
  | missed => exact .missed
  | @found runs items stop helements hstart hstop =>
      obtain ⟨x, hx⟩ := exists_ok_ofItems t runs ⟨pos, stop⟩
      change ∀ e, (Extent.ofItems t runs ⟨pos, stop⟩).result.map _ = _ → _ at hplaced
      show Agree _ (((Extent.ofItems t runs ⟨pos, stop⟩).result.map _).map _) _
      rw [hx] at hplaced ⊢
      obtain ⟨begin, last, hbegin, hlast, rfl⟩ := exists_of_ofItems hx (hplaced _ rfl)
      refine .found ?_ ?_ ?_
      · rw [elementsAll?, Rule.Bracketed.elements?_run, helements]
        simp [elementsAll?]
      · rw [← hstart, startOf?, startOf?, hbegin]
        rfl
      · rw [← hstop, stopOf?, stopOf?, hlast]
        rfl

/-! ## Brackets of any depth -/

variable {call : Slot → Recognizer}

theorem recognizers_append (call : Slot → Recognizer) (rs rs' : List Rule) :
    Rule.recognizers call (rs ++ rs') = Rule.recognizers call rs ++ Rule.recognizers call rs' := by
  rw [Rule.recognizers_eq_map, Rule.recognizers_eq_map, Rule.recognizers_eq_map, List.map_append]

mutual

/-- By the constructors of `Bracketed`, mutually with `agree_bracketedAll` for what is in the brackets. -/
theorem agree_bracketed (hcall : ∀ slot, (call slot).Sound) :
    ∀ (b : Bracketed) {pos : Nat}, t.isBoundary pos = true →
      Agree [b] (runAll t [b.rule.recognizer call] pos).result
        (runAll t (Rule.recognizers call b.leaves) pos).result
  | .alone r, pos, _ => agree_alone r _
  | .run first others, pos, hpos => by
      have hsound := Rule.sound_recognizers hcall (first.rule :: Rule.Bracketed.rules others)
      rw [Rule.Bracketed.rule, Rule.recognizer, Rule.Bracketed.leaves, recognizers_append]
      refine .run (by simp [Rule.recognizers]) hsound hpos ?_
      refine .cons (agree_bracketed hcall first hpos) fun runs stop hruns => ?_
      refine agree_bracketedAll hcall others ?_
      refine (row_of_runAll ?_ hpos hruns).stop_boundary
      simpa using Rule.sound_recognizer hcall first.rule

/-- `agree_bracketed` for one sequence after the other. -/
theorem agree_bracketedAll (hcall : ∀ slot, (call slot).Sound) :
    ∀ (bs : List Bracketed) {pos : Nat}, t.isBoundary pos = true →
      Agree bs (runAll t (Rule.recognizers call (Rule.Bracketed.rules bs)) pos).result
        (runAll t (Rule.recognizers call (leavesAll bs)) pos).result
  | [], pos, _ => .found rfl rfl rfl
  | b :: bs, pos, hpos => by
      rw [Rule.Bracketed.rules, leavesAll, recognizers_append]
      refine .cons (agree_bracketed hcall b hpos) fun runs stop hruns => ?_
      refine agree_bracketedAll hcall bs ?_
      refine (row_of_runAll ?_ hpos hruns).stop_boundary
      simpa using Rule.sound_recognizer hcall b.rule

end

end Recognizer

namespace Grammar

open Recognizer

/-- **Brackets make no difference.** The join of some rules, with `Bracketed` joins put into it in any
    way, and the join of its `leaves`, at a place where the text can be cut. Both halt for the same
    reason, or neither matches, or both match with the same extent, and `elements?` of the first are the
    elements of the second. -/
theorem join_bracketed (g : Grammar) (first : Bracketed) (others : List Bracketed) {t : Text}
    {pos : Nat} (hpos : t.isBoundary pos = true) :
    let b := Bracketed.run first others
    let nested := (g.recognizer b.rule t pos).result
    let flat := (g.recognizer (.join b.leaves) t pos).result
    (∃ halt, nested = .error halt ∧ flat = .error halt) ∨ (nested = .ok none ∧ flat = .ok none) ∨
      ∃ e x items, nested = .ok (some e) ∧ flat = .ok (some (.join x items)) ∧ e.extent = x ∧
        x.isValid = true ∧ b.elements? e = some items := by
  intro b nested flat
  let call : Slot → Recognizer := fun slot => g.recognizer (.forward slot)
  let parts := Rule.recognizers call (Rule.Bracketed.rules (first :: others))
  let leaves := Rule.recognizers call (leavesAll (first :: others))
  have hcall (slot : Slot) : (call slot).Sound := g.sound_recognizer _
  have hnested : nested = (join parts t pos).result := by
    show (g.recognizer b.rule t pos).result = _
    rw [result_recognizer, Rule.Bracketed.rule, Rule.recognizer]
    rfl
  have hflat : flat = (join leaves t pos).result := by
    show (g.recognizer (.join b.leaves) t pos).result = _
    rw [result_recognizer, Rule.recognizer]
    rfl
  have hleaves : leaves ≠ [] := by
    have hne := first.leaves_ne_nil
    simp [leaves, Rule.recognizers_eq_map, leavesAll, hne]
  have hvalid (e : Element) (he : flat = .ok (some e)) : e.isValid = true := by
    rw [hflat] at he
    have hsound := sound_join (Rule.sound_recognizers hcall (leavesAll (first :: others)))
    exact (sound_of_boundary (hsound t pos _ he) hpos).2.placed.valid
  rw [join_eq (by simp [parts, Rule.Bracketed.rules, Rule.recognizers])] at hnested
  rw [join_eq hleaves] at hflat
  have hagree := agree_bracketedAll hcall (first :: others) hpos
  change Agree _ (runAll t parts pos).result (runAll t leaves pos).result at hagree
  generalize (runAll t parts pos).result = run at hagree hnested
  generalize (runAll t leaves pos).result = run' at hagree hflat
  cases hagree with
  | stopped halt => exact .inl ⟨halt, hnested, hflat⟩
  | missed => exact .inr (.inl ⟨hnested, hflat⟩)
  | @found runs items stop helements hstart hstop =>
      have hitems : Extent.ofItems t runs ⟨pos, stop⟩ = Extent.ofItems t items ⟨pos, stop⟩ := by
        rw [ofItems_eq, ofItems_eq, hstart, hstop]
      obtain ⟨x, hx⟩ := exists_ok_ofItems t items ⟨pos, stop⟩
      change nested = (Extent.ofItems t runs ⟨pos, stop⟩).result.map _ at hnested
      change flat = (Extent.ofItems t items ⟨pos, stop⟩).result.map _ at hflat
      rw [hitems, hx] at hnested
      rw [hx] at hflat
      refine .inr (.inr ⟨.join x runs, x, items, hnested, hflat, rfl, hvalid _ hflat, ?_⟩)
      rw [Rule.Bracketed.elements?_run, helements]

/-- A name behind an article that may be missing, in brackets of its own, and a mark behind both. -/
def phrase : Bracketed :=
  .run (.run (.alone (.optional (.plain ['a']))) [.run (.alone .word) []]) [.alone (.symbol ['!'])]

/-- `join_bracketed` for a phrase with a bracket inside. -/
theorem join_bracketed_phrase : Text.isBoundary ['é', ' ', 'x', ' ', '!'] 2 = true ∧
    ∃ e x items, (empty.recognizer phrase.rule ['é', ' ', 'x', ' ', '!'] 2).result = .ok (some e) ∧
      (empty.recognizer (.join [.optional (.plain ['a']), .word, .symbol ['!']])
        ['é', ' ', 'x', ' ', '!'] 2).result = .ok (some (.join x items)) ∧
      e.extent = x ∧ items.length = 3 ∧ phrase.elements? e = some items := by
  have hflat : (empty.recognizer (.join phrase.leaves) ['é', ' ', 'x', ' ', '!'] 2).result
      = .ok (some _) := rfl
  have hboth := @join_bracketed empty (.run (.alone (.optional (.plain ['a']))) [.run (.alone .word) []])
    [.alone (.symbol ['!'])] ['é', ' ', 'x', ' ', '!'] 2 rfl
  rcases hboth with ⟨halt, -, h⟩ | ⟨-, h⟩ | ⟨e, x, items, hnested, h, hextent, -, helements⟩
  · cases hflat.symm.trans h
  · cases hflat.symm.trans h
  · obtain ⟨rfl, rfl⟩ := Element.join.inj (Option.some.inj (Except.ok.inj (hflat.symm.trans h)))
    exact ⟨rfl, e, _, _, hnested, h, hextent, rfl, helements⟩

end Grammar

end Graft
