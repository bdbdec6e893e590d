import Graft.Proofs.Grammar.Alive
import Graft.Proofs.Recognizer.SpelledOut

/-!
# `Graft.Proofs.Grammar.SpelledOut` — the lists of a grammar as sequences

A list stands for the sequence of its tokens (`Grammar.list_spelledOut`). Its parts may be any rules,
also ones with forwards: each of them answers in the list what it answers on its own
(`Grammar.result_recognizer`).
-/

namespace Graft

open Recognizer

theorem Rule.recognizers_eq_map (call : Slot → Recognizer) (parts : List Rule) :
    recognizers call parts = parts.map (recognizer call) := by
  induction parts with
  | nil => rfl
  | cons r rest ih => rw [recognizers, ih, List.map_cons]

theorem Rule.toList_recognizer? (call : Slot → Recognizer) (part : Option Rule) :
    (recognizer? call part).toList = part.toList.map (recognizer call) := by
  cases part <;> rfl

namespace Grammar

/-- Rules of a grammar are read by `Sound` recognisers, whatever their slots lead to. -/
theorem sound_recognizer (g : Grammar) (r : Rule) : (g.recognizer r).Sound :=
  Rule.sound_parse _ _ _

/-- A rule goes by what its forwards answer on their own: `recognizer` may be opened one level at a
    time. -/
theorem result_recognizer (g : Grammar) (r : Rule) (t : Text) (pos : Nat) :
    (g.recognizer r t pos).result
      = (r.recognizer (fun slot => g.recognizer (.forward slot)) t pos).result :=
  Rule.result_parse (fun _ _ => lt_of_target) r t pos

/-- `Recognizer.exists_of_list_error` for rules: if a `list` halts, one of its parts halts at a position
    behind. -/
theorem exists_of_listRule_error {g : Grammar} {item separator : Rule} {opening closing : Option Rule}
    {allowTrailing allowEmpty : Bool} {t : Text} {pos : Nat} {halt : Halt}
    (hpos : t.isBoundary pos = true)
    (h : (g.recognizer (.list item separator opening closing allowTrailing allowEmpty) t pos).result
      = .error halt) :
    ∃ p ∈ item :: separator :: (opening.toList ++ closing.toList), ∃ q, pos ≤ q ∧
      t.isBoundary q = true ∧ (g.recognizer p t q).result = .error halt := by
  let call : Slot → Recognizer := fun slot => g.recognizer (.forward slot)
  have hcall (slot : Slot) : (call slot).Sound := g.sound_recognizer _
  have hsound (r : Rule) : (r.recognizer call).Sound := Rule.sound_recognizer hcall r
  rw [result_recognizer, Rule.recognizer] at h
  obtain ⟨p, hp, q, hle, hq, herror⟩ := exists_of_list_error (hsound item) (hsound separator)
    (Rule.sound_recognizer? hcall opening) hpos h
  have hparts : Rule.recognizer call item :: Rule.recognizer call separator ::
      ((Rule.recognizer? call opening).toList ++ (Rule.recognizer? call closing).toList)
        = (item :: separator :: (opening.toList ++ closing.toList)).map (Rule.recognizer call) := by
    simp [Rule.toList_recognizer?]
  rw [hparts] at hp
  obtain ⟨r, hr, rfl⟩ := List.mem_map.mp hp
  refine ⟨r, hr, q, hle, hq, ?_⟩
  rw [result_recognizer]
  exact herror

/-- **Lists spelled out.** A `list` of any rules, with or without brackets, and with any policies. Where
    it answers, the `join` of its tokens answers with the same positions, and the items are every other
    one of its parts. The list is as long as it can be: nothing more can be read behind its last item, or
    else an item and a separator that take up nothing. There is at most one more item than there are
    positions ahead. The `list` halts only where one of its parts does. -/
theorem list_spelledOut (g : Grammar) {item separator : Rule} {opening closing : Option Rule}
    {allowTrailing allowEmpty : Bool} {t : Text} {pos : Nat} (hpos : t.isBoundary pos = true) :
    (∀ e, (g.recognizer (.list item separator opening closing allowTrailing allowEmpty) t pos).result
        = .ok (some e) →
      ∃ x items trailing parts, e = .list x items trailing ∧
        (g.recognizer (.join (spelledOut item separator opening closing items.length trailing))
          t pos).result = .ok (some (.join x parts)) ∧
        (∀ i, i < items.length → parts[opening.toList.length + 2 * i]? = items[i]?) ∧
        (items = [] →
          (g.recognizer item t (endOf pos (parts.take opening.toList.length))).result = .ok none) ∧
        (∀ last, items.getLast? = some last → IsLast t (g.recognizer item) (g.recognizer separator)
          (endOf pos (parts.take (opening.toList.length + 2 * (items.length - 1)))) last) ∧
        items.length ≤ t.size - pos + 1) ∧
    ∀ halt, (g.recognizer (.list item separator opening closing allowTrailing allowEmpty) t pos).result
        = .error halt →
      ∃ p ∈ item :: separator :: (opening.toList ++ closing.toList), ∃ q, pos ≤ q ∧
        t.isBoundary q = true ∧ (g.recognizer p t q).result = .error halt := by
  let call : Slot → Recognizer := fun slot => g.recognizer (.forward slot)
  have hcall (slot : Slot) : (call slot).Sound := Rule.sound_parse _ _ _
  have hsound (r : Rule) : (r.recognizer call).Sound := Rule.sound_recognizer hcall r
  have hopening : ∀ p ∈ Rule.recognizer? call opening, p.Sound :=
    Rule.sound_recognizer? hcall opening
  constructor
  · intro e h
    rw [result_recognizer, Rule.recognizer] at h
    obtain ⟨x, items, trailing, parts, rfl, hspelled⟩ :=
      exists_spelled_of_list (hsound item) (hsound separator) hopening hpos h
    have hlength : (Rule.recognizer? call opening).toList.length = opening.toList.length := by
      rw [Rule.toList_recognizer?, List.length_map]
    refine ⟨x, items, trailing, parts, rfl, ?_, ?_, ?_, ?_, hspelled.length_le⟩
    · rw [result_recognizer, Rule.recognizer, Rule.recognizers_eq_map, spelledOut, List.map_append,
        List.map_append, map_inTurn, ← Rule.toList_recognizer?, ← Rule.toList_recognizer?]
      exact hspelled.join
    · rw [← hlength]
      exact hspelled.item
    · rw [← hlength, result_recognizer]
      exact hspelled.empty
    · rw [← hlength]
      intro last hlast
      unfold IsLast
      simp only [result_recognizer]
      exact hspelled.last last hlast
  · intro halt h
    exact exists_of_listRule_error hpos h

/-- Items and separators that may both be nothing. -/
def gaps : Rule :=
  .list (.optional (.symbol ['x'])) (.optional (.symbol [','])) none none false true

/-- `list_spelledOut` for items that leave gaps. -/
theorem list_spelledOut_gaps : Text.isBoundary ['x', ',', 'x'] 0 = true ∧
    ∃ x items parts, (empty.recognizer gaps ['x', ',', 'x'] 0).result
        = .ok (some (.list x items false)) ∧
      items.length = 3 ∧
      (empty.recognizer (.join [.optional (.symbol ['x']), .optional (.symbol [',']),
          .optional (.symbol ['x']), .optional (.symbol [',']), .optional (.symbol ['x'])])
        ['x', ',', 'x'] 0).result
        = .ok (some (.join x parts)) ∧
      parts[4]? = items[2]? := by
  have h : (empty.recognizer gaps ['x', ',', 'x'] 0).result = .ok (some _) := rfl
  obtain ⟨x, items, trailing, parts, he, hjoin, hitem, -, -, -⟩ :=
    (list_spelledOut empty rfl).1 _ h
  obtain ⟨rfl, rfl, rfl⟩ := Element.list.inj he
  exact ⟨rfl, _, _, parts, h, rfl, hjoin, hitem 2 (by decide)⟩

end Grammar

end Graft
