import Mathlib.Data.List.DropRight
import Graft.Proofs.Text.LineIndex

/-!
# `Graft.Proofs.Text.Checked` — no step of the line index can fail

The functions on positions are total: a difference that would go below zero is zero, a missing entry of
a table has a stand-in. A machine has no such answers. Here each function stands once more with every
step that could go wrong: a number above a limit, a difference below zero, an entry that a table does
not have, a cut inside a character. Where one goes wrong there is no answer.

None does. A text takes up at most half of the numbers that there are; two numbers to spare between its
size and the limit are enough. Each function then gives the answer of its total counterpart, at whatever
position, for positions are compared and moved into the text before anything is added to them.

## Contents
- `add?`, `sub?`, `clamp?`: arithmetic that can fail.
- `stepBack?`, `floorBoundary?`, `nextLineStart?`: walking to a cut and to the next line.
- `lineIndex?`, `locateBy?`, `numberedLine?`, `lastLine?`, `excerptBy?`: the table and its look-ups.
-/

namespace Graft

/-- `floorBoundary` is the nearest cut at or before a position: no other cut lies between the two. -/
theorem Text.le_floorBoundary {t : Text} {p b : Nat} (hb : t.isBoundary b = true) (hle : b ≤ p) :
    b ≤ t.floorBoundary p := by
  obtain ⟨s, r, rfl, rfl⟩ := isBoundary_iff.mp hb
  induction s generalizing p with
  | nil => exact Nat.zero_le _
  | cons c cs ih =>
      rw [size_cons] at hle ⊢
      have := ih (p := p - c.utf8Size) (by omega) (isBoundary_size_append cs r)
      rw [List.cons_append, floorBoundary, if_pos (by omega)]
      omega

namespace Checked

variable {limit : Nat} {t : Text}

/-! ## Numbers -/

/-- A sum, if it does not exceed the limit. -/
def add? (limit a b : Nat) : Option Nat :=
  if a + b ≤ limit then some (a + b) else none

/-- A difference, if it does not go below zero. -/
def sub? (a b : Nat) : Option Nat :=
  if b ≤ a then some (a - b) else none

/-- A number moved into a range, if the range is in order. -/
def clamp? (p lo hi : Nat) : Option Nat :=
  if lo ≤ hi then some (max lo (min p hi)) else none

theorem add?_eq {a b : Nat} (h : a + b ≤ limit) : add? limit a b = some (a + b) :=
  if_pos h

theorem sub?_eq {a b : Nat} (h : b ≤ a) : sub? a b = some (a - b) :=
  if_pos h

theorem clamp?_eq {p lo hi : Nat} (h : lo ≤ hi) : clamp? p lo hi = some (max lo (min p hi)) :=
  if_pos h

/-! ## Walking through a text -/

/-- A position at which the text can be cut, by steps of one back from the given position. -/
def stepBack? (t : Text) : Nat → Option Nat
  | 0 => if t.isBoundary 0 then some 0 else none
  | p + 1 => if t.isBoundary (p + 1) then some (p + 1) else stepBack? t p

/-- The nearest cut at or before a position, or before the end of the text. -/
def floorBoundary? (t : Text) (p : Nat) : Option Nat :=
  stepBack? t (min p t.size)

theorem stepBack?_eq (t : Text) (p : Nat) : stepBack? t p = some (t.floorBoundary p) := by
  induction p with
  | zero =>
      rw [stepBack?, if_pos (Text.isBoundary_zero t),
        Text.floorBoundary_of_isBoundary (Text.isBoundary_zero t)]
  | succ p ih =>
      rw [stepBack?]
      split
      next hb => rw [Text.floorBoundary_of_isBoundary hb]
      next hb =>
        -- the nearest cut is not here, so it is the nearest one to the position before
        have hcut := Text.isBoundary_floorBoundary t (p + 1)
        have hne : t.floorBoundary (p + 1) ≠ p + 1 := fun h => hb (h ▸ hcut)
        have hle := Text.floorBoundary_le t (p + 1)
        have hback := Text.le_floorBoundary (p := p) hcut (by omega)
        have hforth := Text.le_floorBoundary (p := p + 1) (Text.isBoundary_floorBoundary t p)
          (Nat.le_succ_of_le (Text.floorBoundary_le t p))
        rw [ih, Nat.le_antisymm hback hforth]

/-- The checked search for the nearest cut, from a position of the text. -/
theorem floorBoundary?_eq {p : Nat} (h : p ≤ t.size) :
    floorBoundary? t p = some (t.floorBoundary p) := by
  rw [floorBoundary?, Nat.min_eq_left h, stepBack?_eq]

/-- The position after the first newline at or after a position, or the end of the text. -/
def nextLineStart? (limit : Nat) (t : Text) (p : Nat) : Option Nat := do
  let rest ← t.from? p
  match rest.find? '\n' with
  | some ahead =>
      let newline ← add? limit p ahead
      add? limit newline 1
  | none => some t.size

/-- The checked scan for the next line start. Its additions are bounded by the size of the text. -/
theorem nextLineStart?_eq {p : Nat} {content : Text} {next : Nat} (h : t.LineAt p content next)
    (hlimit : t.size ≤ limit) : nextLineStart? limit t p = some next := by
  have hle := h.next_le_size
  rcases h.cases with ⟨more, hfrom, rfl, -⟩ | ⟨hfrom, rfl, hnext, -⟩
  · have hfind : Text.find? '\n' (content ++ '\n' :: more) = some content.size :=
      Text.find?_eq_some_iff.mpr ⟨content, more, rfl, h.plain, rfl⟩
    rw [nextLineStart?, hfrom]
    simp only [Option.bind_eq_bind, Option.bind_some, hfind]
    rw [add?_eq (by omega), Option.bind_some, add?_eq (by omega), Nat.add_assoc]
  · have hfind : Text.find? '\n' content = none := by
      cases hfound : Text.find? '\n' content with
      | none => rfl
      | some n =>
          obtain ⟨s, r, rfl, -⟩ := Text.find?_eq_some_iff.mp hfound
          exact absurd (by simp) h.plain
    have hsize : p + content.size = t.size := by
      obtain ⟨s, hs, hsize⟩ := Text.exists_of_from? hnext
      rw [hs, List.append_nil, hsize]
    rw [nextLineStart?, hfrom]
    simp only [Option.bind_eq_bind, Option.bind_some, hfind]
    rw [hsize]

/-! ## The table -/

/-- The position after every newline, each counted up from the one before. -/
def startsAfterNewlines? (limit : Nat) : Text → Nat → Option (List Nat)
  | [], _ => some []
  | c :: cs, offset => do
      let next ← add? limit offset c.utf8Size
      let starts ← startsAfterNewlines? limit cs next
      return if c = '\n' then next :: starts else starts

/-- The index of a text. -/
def lineIndex? (limit : Nat) (t : Text) : Option LineIndex := do
  let starts ← startsAfterNewlines? limit t 0
  return ⟨0 :: starts⟩

theorem startsAfterNewlines?_eq {offset : Nat} (h : offset + t.size ≤ limit) :
    startsAfterNewlines? limit t offset = some (LineIndex.startsAfterNewlines t offset) := by
  induction t generalizing offset with
  | nil => rfl
  | cons c cs ih =>
      rw [Text.size_cons] at h
      rw [startsAfterNewlines?, add?_eq (by omega)]
      have hrest : startsAfterNewlines? limit cs (offset + c.utf8Size) = some _ := ih (by omega)
      simp only [Option.bind_eq_bind, Option.bind_some, hrest]
      rw [LineIndex.startsAfterNewlines]
      split
      next hc =>
        subst hc
        rfl
      next => rfl

/-- The table is made without overflow, since its entries are positions of the text. -/
theorem lineIndex?_eq (h : t.size ≤ limit) : lineIndex? limit t = some (LineIndex.ofText t) := by
  rw [lineIndex?, startsAfterNewlines?_eq (by omega)]
  rfl

/-! ## Looking up -/

/-- The location of a position, looked up in a table. -/
def locateBy? (limit : Nat) (x : LineIndex) (t : Text) (p : Nat) : Option Location := do
  let p := min p t.size
  let line := x.lineOf p
  let entry ← sub? line 1
  let start ← x.starts[entry]?
  let before ← match t.slice? start p with
    | some s => some s.length
    | none => sub? p start
  let column ← add? limit before 1
  return ⟨p, line, column⟩

/-- The checked `locate`. The line has an entry by `exists_start_lineOf`, and the column is bounded by the
    size of the text in either case. -/
theorem locateBy?_eq (hlimit : t.size + 1 ≤ limit) (p : Nat) :
    locateBy? limit (LineIndex.ofText t) t p = some ((LineIndex.ofText t).locate t p) := by
  have hsize : min p t.size ≤ t.size := Nat.min_le_right _ _
  obtain ⟨start, hstart, hle, -⟩ := LineIndex.exists_start_lineOf t (min p t.size)
  have hone := LineIndex.one_le_lineOf t (min p t.size)
  have hline : (LineIndex.ofText t).lineStart? ((LineIndex.ofText t).lineOf (min p t.size))
      = some start := by
    rw [LineIndex.lineStart?, if_neg (by omega), hstart]
  unfold locateBy? LineIndex.locate
  simp only [Option.bind_eq_bind, sub?_eq hone, Option.bind_some, hstart, hline, Option.getD_some]
  cases hslice : t.slice? start (min p t.size) with
  | none =>
      dsimp only
      rw [sub?_eq hle, Option.bind_some, add?_eq (by omega)]
      rfl
  | some s =>
      have hs := Text.size_of_slice? hslice
      have hlength := Text.length_le_size s
      dsimp only
      rw [add?_eq (by omega)]
      rfl

/-- One line of the text under its number, cut out up to where the next line starts. -/
def numberedLine? (limit : Nat) (x : LineIndex) (t : Text) (line : Nat) : Option Text :=
  match x.lineStart? line with
  | some start =>
      if start < t.size then do
        let stop ← nextLineStart? limit t start
        let content ← t.slice? start stop
        return LineIndex.padLeft 7 (Text.ofNat line) ++ [':', ' ']
          ++ content.rdropWhile (· = '\n') ++ ['\n']
      else some "    eof\n".toList
  | none => some "    eof\n".toList

/-- What `numberedLine?` slices out of the text at an entry of the table: the `LineAt` the entry,
    which without the newlines at its end is what `LineIndex.numberedLine` shows. -/
theorem exists_line_of_start {start : Nat} (hstart : start ∈ (LineIndex.ofText t).starts)
    (hlt : start < t.size) : ∃ content next line, t.LineAt start content next ∧
      t.slice? start next = some line ∧ line.rdropWhile (· = '\n') = content ∧
      ((t.from? start).getD []).takeWhile (· ≠ '\n') = content := by
  obtain ⟨rest, hrest⟩ := Option.isSome_iff_exists.mp (LineIndex.isBoundary_of_mem_starts hstart)
  have hne : rest ≠ [] := by
    rintro rfl
    obtain ⟨s, rfl, rfl⟩ := Text.exists_of_from? hrest
    simp at hlt
  obtain ⟨content, next, hline⟩ :=
    Text.exists_lineAt (LineIndex.mem_starts_iff.mp hstart) hrest hne
  have hkeep : ∀ c ∈ content, decide (c ≠ '\n') = true := fun c hc =>
    decide_eq_true fun h => hline.plain (h ▸ hc)
  have hcontent : content.rdropWhile (· = '\n') = content := by
    refine List.rdropWhile_eq_self_iff.mpr fun hne hlast => hline.plain ?_
    rw [← of_decide_eq_true hlast]
    exact List.getLast_mem hne
  have htake : ((t.from? start).getD []).takeWhile (· ≠ '\n') = content := by
    rcases hline.cases with ⟨more, hfrom, -, -⟩ | ⟨hfrom, -, -, -⟩
    · rw [hfrom, Option.getD_some, List.takeWhile_append_of_pos hkeep,
        List.takeWhile_cons_of_neg (by simp), List.append_nil]
    · rw [hfrom, Option.getD_some, List.takeWhile_eq_self_iff.mpr hkeep]
  rcases hline.text with hslice | ⟨-, hslice⟩
  · refine ⟨content, next, _, hline, hslice, ?_, htake⟩
    rw [List.rdropWhile_concat_pos _ _ _ (by simp), hcontent]
  · exact ⟨content, next, _, hline, hslice, hcontent, htake⟩

/-- Each line is sliced at two cuts, by `exists_line_of_start`. -/
theorem numberedLine?_eq (hlimit : t.size ≤ limit) (line : Nat) :
    numberedLine? limit (LineIndex.ofText t) t line
      = some ((LineIndex.ofText t).numberedLine t line) := by
  unfold numberedLine? LineIndex.numberedLine
  cases hline : (LineIndex.ofText t).lineStart? line with
  | none => rfl
  | some start =>
      dsimp only
      split
      next hlt =>
        have hmem : start ∈ (LineIndex.ofText t).starts := by
          rw [LineIndex.lineStart?] at hline
          split at hline
          · cases hline
          · exact List.mem_of_getElem? hline
        obtain ⟨content, next, text, hat, hslice, hdrop, htake⟩ := exists_line_of_start hmem hlt
        rw [nextLineStart?_eq hat hlimit, htake]
        simp only [Option.bind_eq_bind, Option.bind_some, hslice, hdrop]
        rfl
      next => rfl

/-- The line on which a range ends. -/
def lastLine? (x : LineIndex) (start stop : Nat) : Option Nat :=
  let last := x.lineOf stop
  if start < stop ∧ x.lineOf start < last ∧ x.lineStart? last = some stop then sub? last 1
  else some last

theorem lastLine?_eq (x : LineIndex) (start stop : Nat) :
    lastLine? x start stop = some (x.lastLine start stop) := by
  unfold lastLine? LineIndex.lastLine
  dsimp only
  split
  next h => exact sub?_eq (Nat.lt_of_le_of_lt (Nat.zero_le _) h.2.1)
  next => rfl

/-- The quotation of a range, from a table. -/
def excerptBy? (limit : Nat) (x : LineIndex) (t : Text) (start stop : Nat) : Option Text := do
  let first := x.lineOf start
  let last ← lastLine? x start stop
  let heading :=
    if first < last then
      "lines ".toList ++ Text.ofNat first ++ ['-'] ++ Text.ofNat last ++ ['\n']
    else "line ".toList ++ Text.ofNat first ++ ['\n']
  let quoted ← numberedLine? limit x t first
  let next ← add? limit first 1
  let skipped := if next < last then "    ...\n".toList else []
  let closing ← if first < last then numberedLine? limit x t last else some []
  return heading ++ quoted ++ skipped ++ closing

/-- All steps of a quotation succeed, the parts by their lemmas above. -/
theorem excerptBy?_eq (hlimit : t.size + 2 ≤ limit) (start stop : Nat) :
    excerptBy? limit (LineIndex.ofText t) t start stop
      = some ((LineIndex.ofText t).excerpt t start stop) := by
  have hfirst : (LineIndex.ofText t).lineOf start + 1 ≤ limit := by
    have hle := LineIndex.lineOf_le (LineIndex.ofText t) start
    have hcount := LineIndex.lineCount_le t
    omega
  unfold excerptBy? LineIndex.excerpt
  simp only [Option.bind_eq_bind, lastLine?_eq, Option.bind_some, add?_eq hfirst,
    numberedLine?_eq (Nat.le_of_add_right_le hlimit)]
  by_cases h : (LineIndex.ofText t).lineOf start < (LineIndex.ofText t).lastLine start stop
  · rw [if_pos h, if_pos h, if_pos h]
    rfl
  · -- nothing can be left out between one line and itself
    rw [if_neg h, if_neg h, if_neg h, if_neg (by omega)]
    simp only [List.append_nil]
    rfl

end Checked

end Graft
