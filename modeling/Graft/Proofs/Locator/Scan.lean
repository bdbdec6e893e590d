import Graft.Proofs.Locator.Placed

/-!
# `Graft.Proofs.Locator.Scan` — all constructs of a range

A scan has three ways to go on: with the next line where nothing was found, behind the construct that
was found, and with the next line where that construct did not lead on. In each of them the position
grows, and the new one is a line start or the end of the text (`isLineStart_resume`).

From this follow the bound that a scan is given (`scanned_of_scan`), the order of what it finds
(`Scanned.sequence`), and how much that can be (`Scanned.length_le`). `locateAll_sequence` puts the
three together.
-/

namespace Graft

/-- Constructs from left to right, each starting where the one before has ended or later, and all of
    them within a limit. -/
inductive Block.Sequence (t : Text) (hi : Nat) : Nat → List Block → Prop
  | nil {lo : Nat} : Sequence t hi lo []
  | cons {lo : Nat} {b : Block} {rest : List Block} (hb : b.Placed t lo hi)
      (hrest : Sequence t hi b.stop rest) : Sequence t hi lo (b :: rest)

theorem Block.Sequence.weaken {t : Text} {lo lo' hi : Nat} {blocks : List Block}
    (h : Sequence t hi lo' blocks) (hle : lo ≤ lo') : Sequence t hi lo blocks := by
  cases h with
  | nil => exact .nil
  | cons hb hrest => exact .cons { hb with le_span := Nat.le_trans hle hb.le_span } hrest

/-- Two adjacent runs of a `Sequence` are one. -/
theorem Block.Sequence.append {t : Text} {lo mid hi : Nat} {blocks blocks' : List Block}
    (h : Sequence t mid lo blocks) (hlo : lo ≤ mid) (hhi : mid ≤ hi)
    (h' : Sequence t hi mid blocks') : Sequence t hi lo (blocks ++ blocks') := by
  induction h with
  | nil => exact h'.weaken hlo
  | cons hb _ ih =>
      exact .cons { hb with stop_le := Nat.le_trans hb.stop_le hhi } (ih hb.stop_le)

/-- A `Sequence` can be split anywhere. -/
theorem Block.Sequence.split {t : Text} {lo hi : Nat} {blocks blocks' : List Block}
    (h : Sequence t hi lo (blocks ++ blocks')) :
    Sequence t hi lo blocks ∧ ∃ mid, Sequence t hi mid blocks' := by
  induction blocks generalizing lo with
  | nil => exact ⟨.nil, lo, h⟩
  | cons b rest ih =>
      cases h with
      | cons hb hrest =>
        obtain ⟨hbefore, hbehind⟩ := ih hrest
        exact ⟨.cons hb hbefore, hbehind⟩

theorem Block.Sequence.within {t : Text} {lo hi : Nat} {blocks : List Block}
    (h : Sequence t hi lo blocks) : ∀ b ∈ blocks, Span.Within t lo hi ⟨b.start, b.stop⟩ := by
  induction h with
  | nil => simp
  | cons hb _ ih =>
      intro b hmem
      rcases List.mem_cons.mp hmem with rfl | hmem
      · exact ⟨Nat.le_trans hb.le_span hb.span_le, hb.start_le_stop, hb.stop_le, hb.start_boundary,
          hb.stop_boundary⟩
      · have hlater := Nat.le_trans hb.le_span (Nat.le_trans hb.span_le hb.start_le_stop)
        exact (ih b hmem).mono hlater (Nat.le_refl _)

theorem Block.Sequence.pairwise {t : Text} {lo hi : Nat} {blocks : List Block}
    (h : Sequence t hi lo blocks) : blocks.Pairwise fun a b => a.stop ≤ b.start := by
  induction h with
  | nil => exact .nil
  | cons _ hrest ih => exact .cons (fun b hmem => (hrest.within b hmem).le_start) ih

namespace Locator

variable {l : Locator} {t : Text} {stop pos : Nat} {blocks : List Block}

/-- A scan from one position to another, without a bound on its steps. -/
inductive Scanned (l : Locator) (t : Text) (stop : Nat) : Nat → List Block → Prop
  | done {pos : Nat} (hpos : stop ≤ pos) : Scanned l t stop pos []
  | miss {pos : Nat} {blocks : List Block} (hpos : pos < stop)
      (hnone : (l.locateWithin t pos stop).result = .ok none)
      (hrest : Scanned l t stop (t.nextLineStart pos) blocks) : Scanned l t stop pos blocks
  | hit {pos : Nat} {b : Block} {blocks : List Block} (hpos : pos < stop)
      (hsome : (l.locateWithin t pos stop).result = .ok (some b))
      (hrest : Scanned l t stop (resume t pos b) blocks) : Scanned l t stop pos (b :: blocks)

/-! ## One step -/

/-- `resume` makes progress, to a line start or to the end of the text. The scan ends because of it. -/
theorem isLineStart_resume {b : Block} (hpos : t.isBoundary pos = true) (hlt : pos < t.size)
    (hb : b.Placed t pos stop) :
    pos < resume t pos b ∧ b.stop ≤ resume t pos b ∧ t.isBoundary (resume t pos b) = true ∧
      (t.isLineStart (resume t pos b) = true ∨ resume t pos b = t.size) := by
  obtain ⟨hle, hcut, hend⟩ := Text.isLineStart_nextLineStartOrHere hb.stop_boundary
  unfold resume
  dsimp only
  split
  next h => exact ⟨h, hle, hcut, hend⟩
  next h =>
    -- the construct is empty and stands at the position itself
    have hstop : b.stop ≤ pos := Nat.le_trans hle (Nat.le_of_not_lt h)
    obtain ⟨hlater, hcut, hend⟩ := Text.isLineStart_nextLineStart hpos hlt
    exact ⟨hlater, Nat.le_trans hstop (Nat.le_of_lt hlater), hcut, hend⟩

/-- `placed_of_locateWithin` for a limit inside the text. -/
theorem placed_of_hit {b : Block} (hl : l.recognizer.Sound) (hstop : stop ≤ t.size)
    (hpos : t.isBoundary pos = true)
    (hsome : (l.locateWithin t pos stop).result = .ok (some b)) : b.Placed t pos stop := by
  have hb := placed_of_locateWithin hl hpos hsome
  rw [Nat.min_eq_left hstop] at hb
  exact hb

/-! ## Whole scans -/

/-- `scan` with a bound of at least the distance to its end does all that `Scanned` describes: the bound
    never runs out first, as each round gets further. -/
theorem scanned_of_scan (hl : l.recognizer.Sound) (hstop : stop ≤ t.size) {bound : Nat}
    (hbound : stop - pos ≤ bound) (hpos : t.isBoundary pos = true)
    (h : (l.scan t stop bound pos).result = .ok blocks) : l.Scanned t stop pos blocks := by
  induction bound generalizing pos blocks with
  | zero =>
      obtain rfl := Except.ok.inj h
      exact .done (by omega)
  | succ bound ih =>
      unfold scan at h
      split at h
      next hlt =>
        obtain ⟨found, hfound, h⟩ := Traced.result_bind_eq_ok_iff.mp h
        rcases found with _ | b
        · obtain ⟨hlater, hcut, -⟩ :=
            Text.isLineStart_nextLineStart hpos (Nat.lt_of_lt_of_le hlt hstop)
          exact .miss hlt hfound (ih (by omega) hcut h)
        · obtain ⟨-, -, h⟩ := Traced.result_bind_eq_ok_iff.mp h
          obtain ⟨rest, hrest, h⟩ := Traced.result_bind_eq_ok_iff.mp h
          obtain rfl := Except.ok.inj h
          obtain ⟨hlater, -, hcut, -⟩ := isLineStart_resume hpos
            (Nat.lt_of_lt_of_le hlt hstop) (placed_of_hit hl hstop hpos hfound)
          exact .hit hlt hfound (ih (by omega) hcut hrest)
      next hge =>
        obtain rfl := Except.ok.inj h
        exact .done (Nat.le_of_not_lt hge)

/-- `scan` halts only where the recogniser does, at some position on the way. -/
theorem error_of_scan (hl : l.recognizer.Sound) (hstop : stop ≤ t.size) {bound : Nat} {halt : Halt}
    (hpos : t.isBoundary pos = true) (h : (l.scan t stop bound pos).result = .error halt) :
    ∃ p, pos ≤ p ∧ p < stop ∧ t.isBoundary p = true ∧
      (l.recognizer t p).result = .error halt := by
  induction bound generalizing pos with
  | zero => cases h
  | succ bound ih =>
      unfold scan at h
      split at h
      next hlt =>
        rcases Traced.result_bind_eq_error_iff.mp h with h | ⟨found, hfound, h⟩
        · exact ⟨pos, Nat.le_refl _, hlt, hpos, error_of_locateWithin h⟩
        rcases found with _ | b
        · obtain ⟨hlater, hcut, -⟩ :=
            Text.isLineStart_nextLineStart hpos (Nat.lt_of_lt_of_le hlt hstop)
          obtain ⟨p, hle, hp⟩ := ih hcut h
          exact ⟨p, by omega, hp⟩
        · rcases Traced.result_bind_eq_error_iff.mp h with h | ⟨-, -, h⟩
          · cases h
          rcases Traced.result_bind_eq_error_iff.mp h with h | ⟨rest, -, h⟩
          · obtain ⟨hlater, -, hcut, -⟩ := isLineStart_resume hpos
              (Nat.lt_of_lt_of_le hlt hstop) (placed_of_hit hl hstop hpos hfound)
            obtain ⟨p, hle, hp⟩ := ih hcut h
            exact ⟨p, by omega, hp⟩
          · cases h
      next => cases h

/-- What is `Scanned` is a `Sequence`: each construct is behind the one before because `resume` is. -/
theorem Scanned.sequence (h : l.Scanned t stop pos blocks) (hl : l.recognizer.Sound)
    (hstop : stop ≤ t.size) (hpos : t.isBoundary pos = true) :
    Block.Sequence t stop pos blocks := by
  induction h with
  | done => exact .nil
  | miss hlt _ _ ih =>
      obtain ⟨hlater, hcut, -⟩ :=
        Text.isLineStart_nextLineStart hpos (Nat.lt_of_lt_of_le hlt hstop)
      exact (ih hcut).weaken (Nat.le_of_lt hlater)
  | hit hlt hsome _ ih =>
      have hb := placed_of_hit hl hstop hpos hsome
      obtain ⟨-, hle, hcut, -⟩ := isLineStart_resume hpos (Nat.lt_of_lt_of_le hlt hstop) hb
      exact .cons hb ((ih hcut).weaken hle)

/-- A round of `Scanned` that goes on at a line start uses it up, among the `lineStartsBetween`; one that
    goes on at the end of the text finds nothing more. This is the step of `Scanned.length_le`. -/
theorem Scanned.length_le_of_lt {next : Nat} (h : l.Scanned t stop next blocks)
    (hstop : stop ≤ t.size) (hlt : pos < next)
    (hnext : t.isLineStart next = true ∨ next = t.size)
    (hle : blocks.length ≤ 1 + (t.lineStartsBetween next stop).length) :
    blocks.length ≤ (t.lineStartsBetween pos stop).length := by
  -- a scan that has come to its end finds nothing more
  rcases Nat.lt_or_ge next stop with hmore | hdone
  · rcases hnext with hline | rfl
    · have := Text.length_lineStartsBetween_lt hlt hmore hline
      omega
    · omega
  · cases h with
    | done => exact Nat.zero_le _
    | miss hpos => omega
    | hit hpos => omega

/-- A scan finds at most one block for each line start that is left and one at its position. -/
theorem Scanned.length_le (h : l.Scanned t stop pos blocks) (hl : l.recognizer.Sound)
    (hstop : stop ≤ t.size) (hpos : t.isBoundary pos = true) :
    blocks.length ≤ 1 + (t.lineStartsBetween pos stop).length := by
  induction h with
  | done => exact Nat.zero_le _
  | miss hlt _ hrest ih =>
      obtain ⟨hlater, hcut, hend⟩ :=
        Text.isLineStart_nextLineStart hpos (Nat.lt_of_lt_of_le hlt hstop)
      have := hrest.length_le_of_lt hstop hlater hend (ih hcut)
      omega
  | hit hlt hsome hrest ih =>
      obtain ⟨hlater, -, hcut, hend⟩ := isLineStart_resume hpos (Nat.lt_of_lt_of_le hlt hstop)
        (placed_of_hit hl hstop hpos hsome)
      have := hrest.length_le_of_lt hstop hlater hend (ih hcut)
      rw [List.length_cons]
      omega

/-- **All constructs.** For a locator that goes by a rule, over a range that starts where the text can be
    cut. `locateAll` finds what is `Scanned`, a `Sequence` within the range and the text, with at most one
    construct more than lines begin inside the range. It halts only where the rule does, at some position
    of the range. -/
theorem locateAll_sequence {resolve : Slot → Rule.Target} {slots : Nat} {r : Rule} {l : Locator}
    {t : Text} {start : Nat} (hl : l.recognizer = r.parse resolve slots)
    (hstart : t.isBoundary start = true) (stop : Nat) :
    (∃ blocks, (l.locateAll t start stop).result = .ok blocks ∧
        l.Scanned t (min stop t.size) start blocks ∧
        Block.Sequence t (min stop t.size) start blocks ∧
        blocks.length ≤ 1 + (t.lineStartsBetween start (min stop t.size)).length) ∨
      ∃ halt pos, (l.locateAll t start stop).result = .error halt ∧
        start ≤ pos ∧ pos < min stop t.size ∧ t.isBoundary pos = true ∧
        (r.parse resolve slots t pos).result = .error halt := by
  have hsound : l.recognizer.Sound := hl ▸ Rule.sound_parse resolve slots r
  have hstop : min stop t.size ≤ t.size := Nat.min_le_right _ _
  cases hresult : (l.locateAll t start stop).result with
  | ok blocks =>
      left
      have hscan := scanned_of_scan hsound hstop (Nat.le_refl _) hstart hresult
      exact ⟨blocks, rfl, hscan, hscan.sequence hsound hstop hstart,
        hscan.length_le hsound hstop hstart⟩
  | error halt =>
      right
      obtain ⟨pos, hle, hlt, hpos, herror⟩ := error_of_scan hsound hstop hstart hresult
      rw [hl] at herror
      exact ⟨halt, pos, rfl, hle, hlt, hpos, herror⟩

/-- `locateAll_sequence` for two blocks in parentheses, each closed on a line of its own. The scan starts
    behind the first character. -/
theorem locateAll_sequence_parentheses :
    ∃ blocks, ((Locator.block (Rule.parse (fun _ => .undefined) 0 (.symbol ['('])) (.line [')'])
        none).locateAll ['é', '(', '\n', ')', '\n', '(', '\n', ')'] 2 9).result = .ok blocks ∧
      Block.Sequence ['é', '(', '\n', ')', '\n', '(', '\n', ')'] 9 2 blocks ∧
      blocks.length = 2 := by
  rcases locateAll_sequence (l := .block (Rule.parse (fun _ => .undefined) 0 (.symbol ['(']))
      (.line [')']) none) (t := ['é', '(', '\n', ')', '\n', '(', '\n', ')']) rfl
      (show Text.isBoundary _ 2 = true from rfl) 9 with
    ⟨blocks, hok, -, hsequence, -⟩ | ⟨halt, pos, herror, -⟩
  · refine ⟨blocks, hok, hsequence, ?_⟩
    obtain rfl := Except.ok.inj hok
    rfl
  · cases herror

end Locator

end Graft
