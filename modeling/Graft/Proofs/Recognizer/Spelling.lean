import Graft.Proofs.Recognizer.Name
import Graft.Proofs.Regex.Begin
import Graft.Proofs.Regex.Spells

/-!
# `Graft.Proofs.Recognizer.Spelling` — what names and symbols take up

What is answered for a dotted name is a dotted name behind white space
(`exists_of_result_dottedWord`), and what is answered for a symbol is its literal behind blanks
(`exists_of_result_symbol`). Both are told as tokens, so that the text that was taken up can be read
off.
-/

namespace Graft

namespace Token

open Regex (Matcher)
open Regex.Matcher (looped)

/-- The expression of identifiers `Spells` nothing else. -/
theorem spells_identifierFrom (label : Nat) : (identifierFrom label).Spells IsIdentifier := by
  apply ((Matcher.spells_set wordStart).seq (Matcher.spells_looped_set _ label)).mono
  rintro s ⟨_, others, ⟨c, hc, rfl⟩, hothers, rfl⟩
  exact ⟨c, others, rfl, hc, hothers⟩

/-- And that of dotted names. -/
theorem spells_dottedNameFrom (label : Nat) : (dottedNameFrom label).Spells IsDottedName := by
  have hdot := (Matcher.spells_set (.char '.')).seq (spells_identifierFrom (label + 4))
  apply ((spells_identifierFrom label).seq (hdot.looped (label + 2))).mono
  rintro s ⟨first, _, hfirst, ⟨pieces, hpieces, rfl⟩, rfl⟩
  refine ⟨first, pieces.map List.tail, hfirst, ?_, ?_⟩
  · intro p hp
    obtain ⟨q, hq, rfl⟩ := List.mem_map.mp hp
    obtain ⟨_, name, ⟨c, -, rfl⟩, hname, rfl⟩ := hpieces q hq
    exact hname
  · -- a piece is a dot and what comes behind it
    have hpiece : ∀ q ∈ pieces, '.' :: q.tail = q := by
      intro q hq
      obtain ⟨_, name, ⟨c, hc, rfl⟩, -, rfl⟩ := hpieces q hq
      obtain rfl := Regex.CharSet.contains_char_iff.mp hc
      rfl
    have hmap : (pieces.map List.tail).map ('.' :: ·) = pieces := by
      rw [List.map_map]
      exact (List.map_congr_left hpiece).trans (List.map_id pieces)
    rw [hmap]

/-- What `find?` finds `afterWhiteSpace` is of the language that the expression `Spells`. -/
theorem exists_of_find?_afterWhiteSpace {m : Matcher} {L : Text → Prop} {t : Text}
    {found : Regex.Match} (hm : m.Spells L) (h : (afterWhiteSpace m).find? t = some found) :
    ∃ lead name more, t = lead ++ (name ++ more) ∧
      (∀ c ∈ lead, Unicode.isWhiteSpace c = true) ∧ L name ∧
      found = ⟨⟨0, lead.size + name.size⟩, [(1, ⟨lead.size, lead.size + name.size⟩)]⟩ := by
  obtain ⟨y, hy, rfl⟩ := Matcher.exists_path_of_find?_of_fails (fun _ => Matcher.fails_behindBlanks _) h
  -- the walk in its parts: the start, white space, an edge, the name as the first group, an edge
  obtain ⟨x, hx, hbody⟩ := List.mem_flatMap.mp hy
  obtain rfl := Matcher.eq_of_mem_look hx
  obtain ⟨z, hz, hbehind⟩ := List.mem_flatMap.mp hbody
  obtain ⟨lead, hlead, hread⟩ := Matcher.spells_looped_set _ _ hz
  obtain ⟨z', hedge, hgroup⟩ := List.mem_flatMap.mp hbehind
  obtain rfl := Matcher.eq_of_mem_look hedge
  obtain ⟨w, hw, hedge'⟩ := List.mem_flatMap.mp hgroup
  obtain rfl := Matcher.eq_of_mem_look hedge'
  obtain ⟨v, hv, rfl⟩ := List.mem_map.mp hw
  obtain ⟨name, hname, hread'⟩ := hm hv
  have hstart : z'.offset = lead.size := hread.offset.trans (Nat.zero_add _)
  have hgroups : v.groups = [] := hread'.groups.trans hread.groups
  refine ⟨lead, name, v.rest, ?_, hlead, hname, ?_⟩
  · rw [← hread'.rest]
    exact hread.rest
  · simp [Regex.Cursor.close, hread'.offset, hstart, hgroups]

end Token

namespace Recognizer

open Token

variable {t : Text} {pos : Nat} {e : Element}

/-- What `dottedWord` answers is a dotted name behind white space. -/
theorem exists_of_result_dottedWord (h : (dottedWord t pos).result = .ok (some e)) :
    ∃ lead name more, t.from? pos = some (lead ++ (name ++ more)) ∧
      (∀ c ∈ lead, Unicode.isWhiteSpace c = true) ∧ IsDottedName name ∧
      e = .dottedWord (.token pos lead name) := by
  unfold dottedWord ofProgram at h
  split at h
  · cases h
  next b hb =>
    obtain ⟨x, hx, h⟩ := Traced.result_bind_eq_ok_iff.mp h
    obtain rfl := Option.some.inj (Except.ok.inj h)
    unfold Regex.Program.scan? at hb
    split at hb
    · obtain ⟨rest, hrest, hb⟩ := Option.bind_eq_some_iff.mp hb
      obtain ⟨found, hfound, rfl⟩ := Option.map_eq_some_iff.mp hb
      rw [Regex.Program.find?_eq, matcher_dottedWordProgram] at hfound
      obtain ⟨lead, name, more, rfl, hlead, hname, rfl⟩ :=
        exists_of_find?_afterWhiteSpace (spells_dottedNameFrom 2) hfound
      refine ⟨lead, name, more, hrest, hlead, hname, ?_⟩
      have htoken := Extent.result_ofRange_token hrest
      have hrange : (Extent.ofRange t (pos + lead.size) (pos + (lead.size + name.size))
          ⟨pos, pos + (lead.size + name.size)⟩).result = .ok x := hx
      rw [← Nat.add_assoc, htoken] at hrange
      rw [Except.ok.inj hrange]
    · cases hb

/-- What `symbol` answers is its literal behind blanks. -/
theorem exists_of_result_symbol {literal : Text}
    (h : (symbol literal t pos).result = .ok (some e)) :
    ∃ skipped more, t.from? pos = some (skipped ++ (literal ++ more)) ∧
      (∀ c ∈ skipped, isSkipped c = true) ∧ e = .symbol (.token pos skipped literal) := by
  unfold symbol at h
  split at h
  · split at h
    · cases h
    next rest hrest =>
      split at h
      next hprefix =>
        obtain ⟨x, hx, h⟩ := Traced.result_bind_eq_ok_iff.mp h
        obtain rfl := Option.some.inj (Except.ok.inj h)
        obtain ⟨more, hmore⟩ := List.isPrefixOf_iff_prefix.mp hprefix
        have hsplit : t.from? pos = some (rest.takeWhile isSkipped ++ (literal ++ more)) := by
          rw [hrest, hmore, List.takeWhile_append_dropWhile]
        rw [Extent.result_ofRange_token hsplit] at hx
        refine ⟨_, more, hsplit, ?_, by rw [Except.ok.inj hx]⟩
        exact List.all_eq_true.mp (List.all_takeWhile (p := isSkipped) (l := rest))
      · cases h
  · cases h

end Recognizer

end Graft
