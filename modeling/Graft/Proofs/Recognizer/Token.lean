import Graft.Proofs.Element.Shift
import Graft.Proofs.Recognizer.Sound

/-!
# `Graft.Proofs.Recognizer.Token` — what tokens answer

A token is some text that is passed over and then its content (`Extent.token`). What a symbol answers
is told exactly by the text ahead: `result_symbol` and `result_symbol_none`.
-/

namespace Graft

variable {t rest : Text} {pos : Nat}

/-- The extent of a token from a position on. It takes up what was skipped as well. -/
def Extent.token (pos : Nat) (skipped content : Text) : Extent :=
  ⟨some ⟨pos + skipped.size, pos + skipped.size + content.size,
    ⟨pos, pos + skipped.size + content.size⟩⟩⟩

theorem Extent.result_ofRange_token {skipped content more : Text}
    (h : t.from? pos = some (skipped ++ (content ++ more))) :
    (Extent.ofRange t (pos + skipped.size) (pos + skipped.size + content.size)
      ⟨pos, pos + skipped.size + content.size⟩).result = .ok (.token pos skipped content) := by
  have hfits := Recognizer.fits_of_skipped skipped content more h rfl
  rcases Extent.result_ofRange t _ _ _ with ⟨-, hx⟩ | ⟨hmisfits, -⟩
  · exact hx
  · exact absurd hfits hmisfits

theorem Extent.content?_token {skipped content more : Text}
    (h : t.from? pos = some (skipped ++ (content ++ more))) :
    (Extent.token pos skipped content).content? t = some content := by
  obtain ⟨s, rfl, rfl⟩ := Text.exists_of_from? h
  exact Text.slice?_eq_some_iff.mpr ⟨s ++ skipped, more, by simp, by simp, rfl⟩

/-- An extent with some content behind what was passed over, and with a span that takes up both. -/
structure Extent.Delimits (t : Text) (pos : Nat) (skipped content : Text) (x : Extent) : Prop where
  content_eq : x.content? t = some content
  start_eq : x.start = pos + skipped.size
  span_eq : x.span = ⟨pos, x.stop⟩

/-- The extent of a token `Delimits` it: where the text was skipped, and where the token stands. -/
theorem Extent.delimits_token {skipped content more : Text}
    (h : t.from? pos = some (skipped ++ (content ++ more))) :
    (Extent.token pos skipped content).Delimits t pos skipped content :=
  ⟨content?_token h, rfl, rfl⟩

namespace Recognizer

theorem takeWhile_isSkipped {skipped more : Text} (hskipped : ∀ c ∈ skipped, isSkipped c = true)
    (hmore : ∀ c, more.head? = some c → isSkipped c = false) :
    (skipped ++ more).takeWhile isSkipped = skipped ∧
      (skipped ++ more).dropWhile isSkipped = more := by
  rw [List.takeWhile_append_of_pos hskipped, List.dropWhile_append_of_pos hskipped]
  cases more with
  | nil => simp
  | cons c more =>
      have hc := hmore c rfl
      simp [hc]

/-- `symbol` halts nowhere. -/
theorem exists_ok_symbol (literal t : Text) (pos : Nat) :
    ∃ found, (symbol literal t pos).result = .ok found := by
  unfold symbol
  split
  · split
    · exact ⟨none, rfl⟩
    next rest _ =>
      split
      · obtain ⟨x, hx⟩ := Extent.exists_ok_ofRange t (pos + Text.size (rest.takeWhile isSkipped))
          (pos + Text.size (rest.takeWhile isSkipped) + literal.size)
          ⟨pos, pos + Text.size (rest.takeWhile isSkipped) + literal.size⟩
        refine ⟨some (.symbol x), Traced.result_bind_eq_ok_iff.mpr ⟨x, hx, rfl⟩⟩
      · exact ⟨none, rfl⟩
  · exact ⟨none, rfl⟩

/-- `symbol` where its literal comes next, perhaps behind blanks. -/
theorem result_symbol {skipped literal more : Text}
    (h : t.from? pos = some (skipped ++ (literal ++ more)))
    (hskipped : ∀ c ∈ skipped, isSkipped c = true)
    (hliteral : ∃ c, literal.head? = some c ∧ isSkipped c = false) :
    (symbol literal t pos).result = .ok (some (.symbol (.token pos skipped literal))) := by
  obtain ⟨c, hhead, hc⟩ := hliteral
  have hmore : ∀ d, (literal ++ more).head? = some d → isSkipped d = false := by
    intro d hd
    rw [List.head?_append, hhead] at hd
    obtain rfl := Option.some.inj hd
    exact hc
  obtain ⟨htake, hdrop⟩ := takeWhile_isSkipped hskipped hmore
  have hpos : pos < t.size := by
    obtain ⟨others, rfl⟩ := List.head?_eq_some_iff.mp hhead
    have := c.utf8Size_pos
    rw [Text.size_of_from? h]
    simp
    omega
  have hprefix : literal.isPrefixOf (literal ++ more) = true :=
    List.isPrefixOf_iff_prefix.mpr (List.prefix_append _ _)
  simp only [symbol, hpos, h, htake, hdrop, hprefix, if_true, Traced.result_bind,
    Extent.result_ofRange_token h]
  rfl

/-- `symbol` where something else comes next. -/
theorem result_symbol_none {literal : Text} (h : t.from? pos = some rest)
    (hmiss : ¬ literal <+: rest.dropWhile isSkipped) : (symbol literal t pos).result = .ok none := by
  have hprefix : literal.isPrefixOf (rest.dropWhile isSkipped) = false := by
    rw [← Bool.not_eq_true, List.isPrefixOf_iff_prefix]
    exact hmiss
  simp only [symbol, h, hprefix]
  split <;> rfl

/-- `result_symbol_none` where another character comes next, perhaps behind blanks. -/
theorem result_symbol_other {gap more : Text} {c d : Char}
    (h : t.from? pos = some (gap ++ c :: more)) (hgap : ∀ a ∈ gap, isSkipped a = true)
    (hc : isSkipped c = false) (hne : d ≠ c) : (symbol [d] t pos).result = .ok none := by
  apply result_symbol_none h
  have hnext : ∀ a, (c :: more).head? = some a → isSkipped a = false := by
    rintro a ⟨⟩
    exact hc
  rw [(takeWhile_isSkipped hgap hnext).2, List.cons_prefix_cons]
  exact fun hprefix => hne hprefix.1

end Recognizer

end Graft
