import Graft.Proofs.Locator.Scan
import Graft.Proofs.Text.LineAt

/-!
# `Graft.Proofs.Locator.Tried` — where a scan looks for constructs

A scan tries the position at which it starts, and every line start behind it that does not lie inside a
construct found before (`Locator.Tries`). Nothing else is passed over, so the constructs of a range are
just those that the locator finds at the positions tried (`Locator.locateAll_tried`).

The positions are described by themselves: whether a line start is tried depends on what was found at
the earlier ones. Going on from one position leads to the first line start that is to be tried next, and
that one step extends the description by the position in front (`Locator.Tries.cons`).
-/

namespace Graft

namespace Locator

variable {l : Locator} {t : Text} {stop pos next : Nat} {blocks : List Block} {tried : List Nat}

/-- What a locator finds at a position within a limit. -/
def hit? (l : Locator) (t : Text) (stop pos : Nat) : Option Block :=
  match (l.locateWithin t pos stop).result with
  | .ok found => found
  | .error _ => none

theorem hit?_of_ok {found : Option Block} (h : (l.locateWithin t pos stop).result = .ok found) :
    l.hit? t stop pos = found := by
  rw [hit?, h]

/-- The positions at which constructs are to be looked for, in order: the start and, of the line starts
    behind it, those that do not lie before the end of a construct found at an earlier one. -/
structure Tries (l : Locator) (t : Text) (stop start : Nat) (tried : List Nat) : Prop where
  ascending : tried.Pairwise (· < ·)
  mem_iff : ∀ p, p ∈ tried ↔ p = start ∨ p ∈ t.lineStartsBetween start stop ∧
    ∀ q ∈ tried, q < p → ∀ b, l.hit? t stop q = some b → b.stop ≤ p

/-! ## One step -/

/-- Whether a line start behind a position lies at or behind the end of what was found there. -/
def Follows (l : Locator) (t : Text) (stop pos p : Nat) : Prop :=
  pos < p ∧ t.isLineStart p = true ∧ ∀ b, l.hit? t stop pos = some b → b.stop ≤ p

/-- Where nothing `Follows` the position within the range, it is the only one that is tried. -/
theorem Tries.last (hnext : ∀ p, l.Follows t stop pos p → next ≤ p) (hstop : stop ≤ next) :
    l.Tries t stop pos [pos] := by
  refine ⟨List.pairwise_singleton _ _, fun p => ?_⟩
  constructor
  · intro hp
    exact .inl (List.mem_singleton.mp hp)
  · rintro (rfl | ⟨hline, hbefore⟩)
    · exact List.mem_singleton_self p
    · obtain ⟨hlt, hwithin, hstart⟩ := Text.mem_lineStartsBetween.mp hline
      have hle := hnext p ⟨hlt, hstart, hbefore pos (List.mem_singleton_self pos) hlt⟩
      omega

/-- The position in front of what is tried from the next one on. `next` is the least position that
    `Follows`. -/
theorem Tries.cons (h : l.Tries t stop next tried) (hfollows : l.Follows t stop pos next)
    (hnext : ∀ p, l.Follows t stop pos p → next ≤ p) (hstop : next < stop) :
    l.Tries t stop pos (pos :: tried) := by
  obtain ⟨hlt, hline, hclear⟩ := hfollows
  have hlater : ∀ p ∈ tried, next ≤ p := by
    intro p hp
    rcases (h.mem_iff p).mp hp with rfl | ⟨hp, -⟩
    · exact Nat.le_refl _
    · exact Nat.le_of_lt (Text.mem_lineStartsBetween.mp hp).1
  refine ⟨List.pairwise_cons.mpr ⟨?_, h.ascending⟩, fun p => ?_⟩
  · intro p hp
    exact Nat.lt_of_lt_of_le hlt (hlater p hp)
  constructor
  · intro hp
    rcases List.mem_cons.mp hp with rfl | hp
    · exact .inl rfl
    right
    have hle := hlater p hp
    -- what was found at the first position ends before the next one
    have hfirst : ∀ b, l.hit? t stop pos = some b → b.stop ≤ p := by
      intro b hb
      exact Nat.le_trans (hclear b hb) hle
    rcases (h.mem_iff p).mp hp with rfl | ⟨hbetween, hbefore⟩
    · refine ⟨Text.mem_lineStartsBetween.mpr ⟨hlt, hstop, hline⟩, ?_⟩
      intro q hq hqp
      rcases List.mem_cons.mp hq with rfl | hq
      · exact hfirst
      · -- nothing is tried between the first position and the next one
        exact absurd (hlater q hq) (Nat.not_le.mpr hqp)
    · obtain ⟨hp, hwithin, hstart⟩ := Text.mem_lineStartsBetween.mp hbetween
      refine ⟨Text.mem_lineStartsBetween.mpr ⟨Nat.lt_trans hlt hp, hwithin, hstart⟩, ?_⟩
      intro q hq hqp
      rcases List.mem_cons.mp hq with rfl | hq
      · exact hfirst
      · exact hbefore q hq hqp
  · rintro (rfl | ⟨hbetween, hbefore⟩)
    · exact List.mem_cons_self ..
    · obtain ⟨hp, hwithin, hstart⟩ := Text.mem_lineStartsBetween.mp hbetween
      apply List.mem_cons_of_mem
      rw [h.mem_iff]
      have hle := hnext p ⟨hp, hstart, hbefore pos (List.mem_cons_self ..) hp⟩
      rcases Nat.lt_or_eq_of_le hle with hlt | heq
      · refine .inr ⟨Text.mem_lineStartsBetween.mpr ⟨hlt, hwithin, hstart⟩, ?_⟩
        intro q hq
        exact hbefore q (List.mem_cons_of_mem _ hq)
      · exact .inl heq.symm

/-- `resume` takes no line start for granted: it is the first one at or behind the end of the
    construct. -/
theorem resume_le_of_isLineStart {b : Block} {p : Nat} (hlt : pos < p)
    (hp : t.isLineStart p = true) (hle : b.stop ≤ p) : resume t pos b ≤ p := by
  unfold resume
  dsimp only
  split
  · exact Text.nextLineStartOrHere_le_of_isLineStart hp hle
  · exact Text.nextLineStart_le_of_isLineStart hp hlt

/-! ## Whole scans -/

/-- Nothing is `Scanned` behind the end of the range. -/
theorem Scanned.eq_nil (h : l.Scanned t stop pos blocks) (hstop : stop ≤ pos) : blocks = [] := by
  cases h with
  | done => rfl
  | miss hpos => omega
  | hit hpos => omega

/-- What a scan finds is what there is at the positions to be tried, and there is an answer at each of
    them. -/
structure Tried (l : Locator) (t : Text) (stop pos : Nat) (tried : List Nat) (blocks : List Block) :
    Prop where
  tries : l.Tries t stop pos tried
  answered : ∀ p ∈ tried, ∃ found, (l.locateWithin t p stop).result = .ok found
  blocks_eq : blocks = tried.filterMap (l.hit? t stop)

/-- One round of `Scanned` tries one position more: either the scan has come to its end then
    (`Tries.last`), or it goes on at the next line start to be tried (`Tries.cons`). -/
theorem exists_tried_cons {found : Option Block} (hstop : stop ≤ t.size)
    (hfound : (l.locateWithin t pos stop).result = .ok found) (hlt : pos < next)
    (hend : t.isLineStart next = true ∨ next = t.size) (hclear : ∀ b ∈ found, b.stop ≤ next)
    (hnext : ∀ p, l.Follows t stop pos p → next ≤ p) (hrest : l.Scanned t stop next blocks)
    (h : ∃ tried, l.Tried t stop next tried blocks) :
    ∃ tried, l.Tried t stop pos tried (found.toList ++ blocks) := by
  have hhit := hit?_of_ok hfound
  rcases Nat.lt_or_ge next stop with hmore | hdone
  · obtain ⟨tried, htried⟩ := h
    have hline : t.isLineStart next = true := by
      rcases hend with hline | rfl
      · exact hline
      · omega
    have hfollows : l.Follows t stop pos next := ⟨hlt, hline, by rw [hhit]; exact hclear⟩
    refine ⟨pos :: tried, htried.tries.cons hfollows hnext hmore, ?_, ?_⟩
    · intro p hp
      rcases List.mem_cons.mp hp with rfl | hp
      · exact ⟨found, hfound⟩
      · exact htried.answered p hp
    · rw [List.filterMap_cons, hhit, htried.blocks_eq]
      cases found <;> rfl
  · refine ⟨[pos], .last hnext hdone, ?_, ?_⟩
    · intro p hp
      obtain rfl := List.mem_singleton.mp hp
      exact ⟨found, hfound⟩
    · rw [hrest.eq_nil hdone, List.filterMap_cons, hhit]
      cases found <;> rfl

/-- A scan, described by what it finds, also has the positions that were `Tried` on its way. -/
theorem Scanned.exists_tried (h : l.Scanned t stop pos blocks) (hl : l.recognizer.Sound)
    (hstop : stop ≤ t.size) (hpos : t.isBoundary pos = true) :
    ∃ tried, l.Tried t stop pos tried blocks := by
  induction h with
  | @done pos hdone =>
      -- the start is tried also where nothing is left of the range
      have hnone : (l.locateWithin t pos stop).result = .ok none := by
        unfold locateWithin
        dsimp only
        rw [Nat.min_eq_left hstop, if_neg (Nat.not_lt.mpr hdone)]
        rfl
      have hlast : ∀ p, l.Follows t stop pos p → pos ≤ p := by
        intro p hp
        exact Nat.le_of_lt hp.1
      refine ⟨[pos], .last hlast hdone, ?_, ?_⟩
      · intro p hp
        obtain rfl := List.mem_singleton.mp hp
        exact ⟨none, hnone⟩
      · rw [List.filterMap_cons, hit?_of_ok hnone]
        rfl
  | @miss pos blocks hlt hnone hrest ih =>
      obtain ⟨hlater, hcut, hend⟩ :=
        Text.isLineStart_nextLineStart hpos (Nat.lt_of_lt_of_le hlt hstop)
      apply exists_tried_cons hstop hnone hlater hend (by simp) _ hrest (ih hcut)
      intro p hp
      exact Text.nextLineStart_le_of_isLineStart hp.2.1 hp.1
  | @hit pos b blocks hlt hsome hrest ih =>
      have hb := placed_of_hit hl hstop hpos hsome
      obtain ⟨hlater, hle, hcut, hend⟩ := isLineStart_resume hpos (Nat.lt_of_lt_of_le hlt hstop) hb
      apply exists_tried_cons hstop hsome hlater hend _ _ hrest (ih hcut)
      · rintro b' ⟨⟩
        exact hle
      · intro p hp
        exact resume_le_of_isLineStart hp.1 hp.2.1 (hp.2.2 b (hit?_of_ok hsome))

/-- **Which positions are tried.** For a locator that goes by a rule, over a range that starts where the
    text can be cut. `locateAll` finds what `locateWithin` finds at the positions that `Tries` describes:
    once and in order, at the start and at every line start behind it that does not lie inside a construct
    found at an earlier one. It halts only where the rule does, at some position of the range. -/
theorem locateAll_tried {resolve : Slot → Rule.Target} {slots : Nat} {r : Rule} {start : Nat}
    (hl : l.recognizer = r.parse resolve slots) (hstart : t.isBoundary start = true) (stop : Nat) :
    (∃ tried, l.Tries t (min stop t.size) start tried ∧
        (∀ p ∈ tried, ∃ found, (l.locateWithin t p (min stop t.size)).result = .ok found) ∧
        (l.locateAll t start stop).result
          = .ok (tried.filterMap (l.hit? t (min stop t.size)))) ∨
      ∃ halt pos, (l.locateAll t start stop).result = .error halt ∧
        start ≤ pos ∧ pos < min stop t.size ∧ t.isBoundary pos = true ∧
        (r.parse resolve slots t pos).result = .error halt := by
  have hsound : l.recognizer.Sound := hl ▸ Rule.sound_parse resolve slots r
  have hstop : min stop t.size ≤ t.size := Nat.min_le_right _ _
  cases hresult : (l.locateAll t start stop).result with
  | ok blocks =>
      left
      have hscan := scanned_of_scan hsound hstop (Nat.le_refl _) hstart hresult
      obtain ⟨tried, htried⟩ := hscan.exists_tried hsound hstop hstart
      exact ⟨tried, htried.tries, htried.answered, by rw [htried.blocks_eq]⟩
  | error halt =>
      right
      obtain ⟨pos, hle, hlt, hpos, herror⟩ := error_of_scan hsound hstop hstart hresult
      rw [hl] at herror
      exact ⟨halt, pos, rfl, hle, hlt, hpos, herror⟩

/-- A block with another one inside, a line with something else, and a last block. -/
def nestedBlocks : Text :=
  ['é', '(', '\n', ' ', '(', '\n', ' ', ')', '\n', ')', '\n', 'x', '\n', '(', '\n', ')']

/-- `locateAll_tried` from behind the first character. The line starts inside the first block are not
    tried, and the line behind it is. -/
theorem locateAll_tried_parentheses : ∃ tried blocks,
    (Locator.block (Rule.parse (fun _ => .undefined) 0 (.symbol ['('])) (.line [')']) none).Tries
        nestedBlocks 17 2 tried ∧
      ((Locator.block (Rule.parse (fun _ => .undefined) 0 (.symbol ['('])) (.line [')'])
        none).locateAll nestedBlocks 2 17).result = .ok blocks ∧
      blocks.map Block.start = [2, 14] ∧ 4 ∉ tried ∧ 12 ∈ tried := by
  rcases locateAll_tried (l := .block (Rule.parse (fun _ => .undefined) 0 (.symbol ['(']))
      (.line [')']) none) (t := nestedBlocks) rfl (show nestedBlocks.isBoundary 2 = true from rfl)
      17 with ⟨tried, htries, -, hresult⟩ | ⟨halt, pos, herror, -⟩
  · have hstart : 2 ∈ tried := (htries.mem_iff 2).mpr (.inl rfl)
    obtain ⟨b, hb, hstop⟩ : ∃ b, (Locator.block (Rule.parse (fun _ => .undefined) 0 (.symbol ['(']))
        (.line [')']) none).hit? nestedBlocks 17 2 = some b ∧ b.stop = 12 := ⟨_, rfl, rfl⟩
    have hlater : ∀ q ∈ tried, q = 2 ∨ 12 ≤ q := by
      intro q hq
      rcases (htries.mem_iff q).mp hq with rfl | ⟨hline, hbefore⟩
      · exact .inl rfl
      · have hle := hbefore 2 hstart (Text.mem_lineStartsBetween.mp hline).1 b hb
        exact .inr (hstop ▸ hle)
    refine ⟨tried, _, htries, hresult, ?_, ?_, ?_⟩
    · obtain ⟨blocks, hblocks, hmap⟩ : ∃ blocks, ((Locator.block (Rule.parse (fun _ => .undefined) 0
          (.symbol ['('])) (.line [')']) none).locateAll nestedBlocks 2 17).result = .ok blocks ∧
            blocks.map Block.start = [2, 14] := ⟨_, rfl, rfl⟩
      rw [Except.ok.inj (hresult.symm.trans hblocks), hmap]
    · intro hfour
      have := hlater 4 hfour
      omega
    · apply (htries.mem_iff 12).mpr
      refine .inr ⟨Text.mem_lineStartsBetween.mpr ⟨by decide, by decide, rfl⟩, ?_⟩
      intro q hq hlt b' hb'
      obtain rfl : q = 2 := (hlater q hq).resolve_right (Nat.not_le.mpr hlt)
      obtain rfl := Option.some.inj (hb.symm.trans hb')
      exact Nat.le_of_eq hstop
  · cases herror

end Locator

end Graft
