import Graft.Proofs.Text.LinePieces

/-!
# `Graft.Proofs.Text.Location` — locations in the order of positions

Later positions are reported on no earlier lines. On one line they are reported in no earlier columns, save
that a position inside a character is reported in a column that counts bytes (`locate_eq_of_splits`), and a
cut behind it in one that counts characters. A column that counts bytes may therefore lie past the end of
its line and past the columns of what comes later (`not_notAfter_locate`). Everywhere else locations keep the
order of positions and columns stay within their lines (`locate_notAfter`).
-/

namespace Graft

/-- A location comes no later than another: on an earlier line, or on the same line in no later column. -/
def Location.NotAfter (a b : Location) : Prop :=
  a.line < b.line ∨ a.line = b.line ∧ a.column ≤ b.column

instance (a b : Location) : Decidable (a.NotAfter b) :=
  inferInstanceAs (Decidable (_ ∨ _))

/-- A position splits a character of the text: it is not past the end, and no cut. -/
def Text.Splits (t : Text) (p : Nat) : Prop :=
  p < t.size ∧ t.isBoundary p = false

instance (t : Text) (p : Nat) : Decidable (t.Splits p) :=
  inferInstanceAs (Decidable (_ ∧ _))

theorem Text.isBoundary_of_not_splits {t : Text} {p : Nat} (h : ¬ t.Splits p) (hsize : p ≤ t.size) :
    t.isBoundary p = true := by
  rcases Nat.eq_or_lt_of_le hsize with rfl | hlt
  · exact isBoundary_size t
  · by_contra hinside
    exact h ⟨hlt, by simpa using hinside⟩

namespace LineIndex

variable {t : Text} {p q : Nat}

/-! ## Lines -/

/-- Later positions lie on no earlier lines. -/
theorem lineOf_mono (t : Text) (hle : p ≤ q) : (ofText t).lineOf p ≤ (ofText t).lineOf q := by
  rw [lineOf_eq, lineOf_eq]
  exact Nat.add_le_add_left ((List.range_sublist.mpr hle).countP_le) 1

/-- The piece of the line of a position stands at `startOfLine`, and reaches up to the position at
    least. -/
theorem exists_piece_lineOf (t : Text) (p : Nat) :
    ∃ body rest, t.pieces[(ofText t).lineOf p - 1]? = some body ∧
      t.from? (t.startOfLine p) = some (body ++ rest) ∧
      (p ≤ t.size → p ≤ t.startOfLine p + body.size) := by
  obtain ⟨body, rest, hpiece, hfrom, -, hend⟩ := exists_piece_of_lineStart? (lineStart?_lineOf t p)
  refine ⟨body, rest, hpiece, hfrom, fun hsize => ?_⟩
  rcases hend with rfl | ⟨more, rfl⟩
  · obtain ⟨before, rfl, hbefore⟩ := Text.exists_of_from? hfrom
    simpa [hbefore] using hsize
  · by_contra hlt
    -- another line would start behind the newline, still in front of the position
    have hlater := Text.isLineStart_of_newline hfrom
    have hback := Text.le_startOfLine (p := p) hlater (by omega)
    omega

/-! ## Columns -/

/-- `locate` reports positions past the end like the end. -/
theorem locate_min (t : Text) (p : Nat) :
    (ofText t).locate t (min p t.size) = (ofText t).locate t p := by
  simp only [locate, Nat.min_assoc, Nat.min_self]

/-- `locate` inside a character: the column counts the bytes from `startOfLine` on, where elsewhere it
    counts characters. -/
theorem locate_eq_of_splits (h : t.Splits p) :
    (ofText t).locate t p = ⟨p, (ofText t).lineOf p, p - t.startOfLine p + 1⟩ := by
  have hnone : t.slice? (t.startOfLine p) p = none := by
    rw [← Option.not_isSome_iff_eq_none, Text.isSome_slice?_iff]
    rintro ⟨-, -, hp⟩
    exact absurd hp (by simp [h.2])
  simp only [locate, Nat.min_eq_left (Nat.le_of_lt h.1), lineStart?_lineOf, Option.getD_some, hnone]

/-- In either case the column is bounded by the bytes from `startOfLine` on, by `length_le_size`. -/
theorem column_le (hsize : p ≤ t.size) :
    ((ofText t).locate t p).column ≤ p - t.startOfLine p + 1 := by
  by_cases hp : t.Splits p
  · rw [locate_eq_of_splits hp]
  · obtain ⟨before, hbefore, hlocate⟩ :=
      locate_eq_of_isBoundary (Text.isBoundary_of_not_splits hp hsize)
    have hlength := Text.length_le_size before
    have hwidth := Text.size_of_slice? hbefore
    rw [hlocate]
    dsimp only
    omega

/-- On one line columns keep the order of positions, unless the earlier one `Splits` a character and the
    later one does not, and bytes are compared with characters. -/
theorem column_le_column (hle : p ≤ q) (hsize : q ≤ t.size)
    (hline : (ofText t).lineOf p = (ofText t).lineOf q) (h : ¬ t.Splits p ∨ t.Splits q) :
    ((ofText t).locate t p).column ≤ ((ofText t).locate t q).column := by
  have hstart := startOfLine_eq_of_lineOf hline
  by_cases hq : t.Splits q
  · -- characters are no more than bytes, whichever of the two are counted up to `p`
    have hp := column_le (Nat.le_trans hle hsize)
    rw [locate_eq_of_splits hq]
    dsimp only
    omega
  · have hcut := Text.isBoundary_of_not_splits (h.resolve_right hq) (Nat.le_trans hle hsize)
    have hcut' := Text.isBoundary_of_not_splits hq hsize
    obtain ⟨before, hbefore, hlocate⟩ := locate_eq_of_isBoundary hcut
    obtain ⟨before', hbefore', hlocate'⟩ := locate_eq_of_isBoundary hcut'
    obtain ⟨between, hbetween⟩ := Text.exists_slice? hle hcut hcut'
    have hsplit := Text.slice?_append hbefore hbetween
    rw [hstart, hbefore'] at hsplit
    obtain rfl := Option.some.inj hsplit
    rw [hlocate, hlocate']
    simp

/-- The column of a cut is one of its line's, or the one behind them. -/
theorem column_le_length {body : Text} (hp : t.isBoundary p = true)
    (hbody : t.pieces[(ofText t).lineOf p - 1]? = some body) :
    ((ofText t).locate t p).column ≤ 1 + body.length := by
  obtain ⟨piece, rest, hpiece, hfrom, hwithin⟩ := exists_piece_lineOf t p
  obtain rfl := Option.some.inj (hbody.symm.trans hpiece)
  obtain ⟨before, hbefore, hlocate⟩ := locate_eq_of_isBoundary hp
  have hwidth := Text.size_of_slice? hbefore
  have hle := hwithin (Text.le_size_of_isBoundary hp)
  obtain ⟨s, r, rfl, hs, -⟩ := Text.slice?_eq_some_iff.mp hbefore
  rw [← hs, Text.from?_size_append] at hfrom
  -- both are what the line begins with
  have hlength : before.length ≤ body.length := by
    rcases List.append_eq_append_iff.mp (Option.some.inj hfrom) with ⟨m, rfl, -⟩ | ⟨m, hm, -⟩
    · simp
    · have hmore : before.size = body.size + Text.size m := by rw [hm, Text.size_append]
      have hsame : m = [] := Text.size_eq_zero_iff.mp (by omega)
      rw [hm, hsame, List.append_nil]
  rw [hlocate]
  dsimp only
  omega

/-- **Locations.** Of two positions the later one is reported on no earlier line. It is reported at no
    earlier location (`NotAfter`), unless the earlier one `Splits` a character and the later one does not.
    A position that splits no character is reported in a column of its line, or in the one behind them,
    and any position in a column that is no greater than the number of bytes of its line and one more. -/
theorem locate_notAfter (t : Text) (hle : p ≤ q) :
    let x := ofText t
    (x.locate t p).line ≤ (x.locate t q).line ∧
      (¬ t.Splits p ∨ t.Splits q → (x.locate t p).NotAfter (x.locate t q)) ∧
      ∃ body, t.pieces[(x.locate t p).line - 1]? = some body ∧
        (¬ t.Splits p → (x.locate t p).column ≤ 1 + body.length) ∧
        (x.locate t p).column ≤ 1 + body.size := by
  intro x
  -- what is past the end is reported at the end, and the end is a cut
  have hmin : ∀ n, ¬ t.Splits n → ¬ t.Splits (min n t.size) := by
    intro n hn hsplits
    rw [Nat.min_eq_left (by have := hsplits.1; omega)] at hsplits
    exact hn hsplits
  have hline : (ofText t).lineOf (min p t.size) ≤ (ofText t).lineOf (min q t.size) :=
    lineOf_mono t (by omega)
  refine ⟨hline, ?_, ?_⟩
  · intro h
    rcases Nat.lt_or_eq_of_le hline with hlt | heq
    · exact .inl hlt
    · refine .inr ⟨heq, ?_⟩
      show ((ofText t).locate t p).column ≤ ((ofText t).locate t q).column
      rw [← locate_min t p, ← locate_min t q]
      apply column_le_column (by omega) (Nat.min_le_right _ _) heq
      apply h.imp (hmin p)
      intro hq
      rw [Nat.min_eq_left (Nat.le_of_lt hq.1)]
      exact hq
  · obtain ⟨body, rest, hpiece, -, hwithin⟩ := exists_piece_lineOf t (min p t.size)
    have hsize : min p t.size ≤ t.size := Nat.min_le_right _ _
    refine ⟨body, hpiece, ?_, ?_⟩
    · intro hp
      show ((ofText t).locate t p).column ≤ _
      rw [← locate_min t p]
      exact column_le_length (Text.isBoundary_of_not_splits (hmin p hp) hsize) hpiece
    · show ((ofText t).locate t p).column ≤ _
      rw [← locate_min t p]
      have hcolumn := column_le hsize
      have hle' := hwithin hsize
      omega

/-- `locate_notAfter` for a position in front of an accented letter and one inside it, which are reported
    in this order, and the second line behind them. -/
theorem locate_notAfter_accent :
    ((ofText ['a', 'é', '\n', 'b']).locate ['a', 'é', '\n', 'b'] 1).NotAfter
        ((ofText ['a', 'é', '\n', 'b']).locate ['a', 'é', '\n', 'b'] 2) ∧
      ((ofText ['a', 'é', '\n', 'b']).locate ['a', 'é', '\n', 'b'] 2).NotAfter
        ((ofText ['a', 'é', '\n', 'b']).locate ['a', 'é', '\n', 'b'] 4) := by
  obtain ⟨-, hinside, -⟩ := locate_notAfter ['a', 'é', '\n', 'b'] (show 1 ≤ 2 by decide)
  obtain ⟨hline, -, -⟩ := locate_notAfter ['a', 'é', '\n', 'b'] (show 2 ≤ 4 by decide)
  refine ⟨hinside (by decide), .inl ?_⟩
  apply Nat.lt_of_le_of_ne hline
  decide

/-- The exceptions of `locate_notAfter` occur: inside the second of two accented letters the column is
    past the end of the line, and past the column of the position behind the letter. -/
theorem not_notAfter_locate :
    ¬ (∀ (t : Text) (p q : Nat), p ≤ q →
        ((ofText t).locate t p).NotAfter ((ofText t).locate t q)) ∧
      ¬ (∀ (t : Text) (p : Nat), ∃ body, t.pieces[((ofText t).locate t p).line - 1]? = some body ∧
        ((ofText t).locate t p).column ≤ 1 + body.length) := by
  constructor
  · intro h
    have hcolumn := h ['é', 'é'] 3 4 (by decide)
    exact absurd hcolumn (by decide)
  · intro h
    obtain ⟨body, hbody, hcolumn⟩ := h ['é', 'é'] 3
    obtain rfl : ['é', 'é'] = body := Option.some.inj hbody
    exact absurd hcolumn (by decide)

end LineIndex

end Graft
