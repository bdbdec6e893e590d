import Graft.Proofs.Element.Shift
import Graft.Proofs.Recognizer.List

/-!
# `Graft.Proofs.Recognizer.SpelledOut` — lists and the tokens they are made of

A list takes up what the sequence of its tokens takes up: its brackets, and between them its items and
separators in turn (`exists_spelled_of_list`). It goes on for as long as it can, and it ends: a list
that is cut short was cut short by one of its tokens (`exists_of_list_error`).

The loop that reads items is followed through the states in which an item is due
(`ItemRun.AtItem`). In the first of them nothing was read, and each later one comes from the one before
by an item and a separator; a separator ends later than its item began, so there is an end to them. The
loop leaves off in such a state or one item further on (`ItemRun.AtEnd`), which is also where a list is
that gave its last separator back.
-/

namespace Graft

namespace Recognizer

variable {t : Text} {pos : Nat}

/-! ## Tokens one after the other -/

/-- Where the last of some elements ends, or a position if there are none. -/
def endOf (pos : Nat) (items : List Element) : Nat :=
  (items.getLast?.map fun e => e.span.stop).getD pos

theorem endOf_singleton (e : Element) : endOf pos [e] = e.span.stop := rfl

theorem endOf_append (items more : List Element) :
    endOf pos (items ++ more) = endOf (endOf pos items) more := by
  rw [endOf, endOf, List.getLast?_append]
  cases more.getLast? <;> rfl

section

variable {p : Recognizer} {ps qs : List Recognizer} {items more : List Element} {e : Element}
  {stop last : Nat}

theorem result_runAll_cons (he : (p t pos).result = .ok (some e))
    (h : (runAll t ps e.span.stop).result = .ok (some (items, stop))) :
    (runAll t (p :: ps) pos).result = .ok (some (e :: items, stop)) := by
  simp [runAll, he, h, Except.bind]

theorem result_runAll_singleton (he : (p t pos).result = .ok (some e)) :
    (runAll t [p] pos).result = .ok (some ([e], e.span.stop)) :=
  result_runAll_cons he rfl

theorem result_runAll_append (h : (runAll t ps pos).result = .ok (some (items, stop)))
    (h' : (runAll t qs stop).result = .ok (some (more, last))) :
    (runAll t (ps ++ qs) pos).result = .ok (some (items ++ more, last)) := by
  rw [runAll_append, h]
  show (runAll t qs stop).result.map _ = _
  rw [h']
  rfl

/-- What `runAll` reads ends where `endOf` says. -/
theorem of_runAll (h : (runAll t ps pos).result = .ok (some (items, stop))) :
    items.length = ps.length ∧ stop = endOf pos items := by
  induction ps generalizing pos items with
  | nil =>
      obtain ⟨rfl, rfl⟩ := Prod.mk.inj (Option.some.inj (Except.ok.inj h))
      exact ⟨rfl, rfl⟩
  | cons p ps ih =>
      obtain ⟨e, rest, rfl, he, hrest⟩ := exists_of_runAll_cons h
      obtain ⟨hlength, hstop⟩ := ih hrest
      refine ⟨by rw [List.length_cons, List.length_cons, hlength], ?_⟩
      rw [hstop, ← List.singleton_append, endOf_append, endOf_singleton]

/-- `join` of parts that `runAll` has read, with the extent given. -/
theorem result_join {first final : Element} {x : Extent}
    (h : (runAll t ps pos).result = .ok (some (items, stop))) (hfirst : items.head? = some first)
    (hfinal : items.getLast? = some final)
    (hx : (Extent.ofRange t first.start final.stop ⟨pos, stop⟩).result = .ok x) :
    (join ps t pos).result = .ok (some (.join x items)) := by
  cases ps with
  | nil =>
      obtain ⟨rfl, -⟩ := Prod.mk.inj (Option.some.inj (Except.ok.inj h))
      cases hfirst
  | cons p ps =>
      simp [join, h, Element.ofJoin, Extent.ofItems, hfirst, hfinal, hx, Except.bind, Except.map]

end

/-- So many items with separators between them, and perhaps one more behind the last. -/
def inTurn {α : Type} (item separator : α) (n : Nat) (trailing : Bool) : List α :=
  (List.replicate n item).intersperse separator ++ if trailing then [separator] else []

section

variable {α β : Type} (item separator : α)

theorem inTurn_trailing (n : Nat) :
    inTurn item separator n true = inTurn item separator n false ++ [separator] := by
  simp [inTurn]

/-- `inTurn` grows at its end by an item, behind a separator unless it is the first. -/
theorem inTurn_succ (n : Nat) :
    inTurn item separator (n + 1) false = inTurn item separator n (decide (0 < n)) ++ [item] := by
  induction n with
  | zero => rfl
  | succ n ih =>
      cases n with
      | zero => rfl
      | succ n =>
          have hmany (m : Nat) : decide (0 < m + 1) = true := rfl
          rw [hmany, inTurn_trailing] at ih ⊢
          calc
            inTurn item separator (n + 3) false
                = item :: separator :: inTurn item separator (n + 2) false := rfl
            _ = item :: separator :: inTurn item separator (n + 1) false ++ [separator] ++ [item] := by
                rw [ih]
                rfl
            _ = inTurn item separator (n + 2) false ++ [separator] ++ [item] := rfl

theorem length_inTurn (n : Nat) :
    (inTurn item separator n (decide (0 < n))).length = 2 * n := by
  have hone : (if decide (0 < n) = true then [separator] else []).length = min n 1 := by
    cases n <;> simp
  rw [inTurn, List.length_append, List.length_intersperse, List.length_replicate, hone]
  omega

theorem map_inTurn (f : α → β) (n : Nat) (trailing : Bool) :
    (inTurn item separator n trailing).map f = inTurn (f item) (f separator) n trailing := by
  have hmap : ((List.replicate n item).intersperse separator).map f
      = (List.replicate n (f item)).intersperse (f separator) := by
    induction n with
    | zero => rfl
    | succ n ih =>
        cases n with
        | zero => rfl
        | succ n => exact congrArg (f item :: f separator :: ·) ih
  rw [inTurn, inTurn, List.map_append, hmap]
  cases trailing <;> rfl

end

/-! ## The states of the loop -/

/-- No item follows an item that was read at a position: no separator does, or one that ends where the
    item began, or one without an item behind it. -/
def IsLast (t : Text) (item separator : Recognizer) (q : Nat) (e : Element) : Prop :=
  (separator t e.span.stop).result = .ok none ∨
    ∃ s, (separator t e.span.stop).result = .ok (some s) ∧
      (s.span.stop = q ∨ (item t s.span.stop).result = .ok none)

namespace ItemRun

variable {item separator : Recognizer} {begin : Nat} {run : ItemRun} {tokens : List Element}
  {e s : Element}

/-- The loop where an item is due. -/
inductive AtItem (t : Text) (item separator : Recognizer) (begin : Nat) : ItemRun → Prop
  | start : AtItem t item separator begin (.start begin)
  | next {run : ItemRun} {e s : Element} (h : AtItem t item separator begin run)
      (he : (item t run.last.taken).result = .ok (some e))
      (hs : (separator t e.span.stop).result = .ok (some s)) (hne : s.span.stop ≠ run.last.taken) :
      AtItem t item separator begin ((run.addItem e).addSeparator s)

/-- The loop when it is over, or a list that gave its last separator back. -/
inductive AtEnd (t : Text) (item separator : Recognizer) (begin : Nat) : ItemRun → Prop
  | empty (h : (item t begin).result = .ok none) : AtEnd t item separator begin (.start begin)
  | item {run : ItemRun} {e : Element} (h : AtItem t item separator begin run)
      (he : (item t run.last.taken).result = .ok (some e))
      (hlast : IsLast t item separator run.last.taken e) :
      AtEnd t item separator begin (run.addItem e)
  | separator {run : ItemRun} {e s : Element} (h : AtItem t item separator begin run)
      (he : (item t run.last.taken).result = .ok (some e))
      (hs : (separator t e.span.stop).result = .ok (some s))
      (hmissed : (item t s.span.stop).result = .ok none) :
      AtEnd t item separator begin ((run.addItem e).addSeparator s)

theorem AtItem.trailing_eq (h : AtItem t item separator begin run) :
    run.trailing = decide (0 < run.items.length) := by
  cases h with
  | start => rfl
  | next => simp [addSeparator, addItem]

theorem AtEnd.trim (h : AtEnd t item separator begin run) :
    AtEnd t item separator begin run.trim := by
  cases h with
  | empty h => exact .empty h
  | item h he hlast => exact .item h he hlast
  | separator h he hs hmissed => exact .item h he (.inr ⟨_, hs, .inr hmissed⟩)

/-! ### Progress -/

/-- What is `AtItem` is `Lined`, and each round has taken up at least one position, as the loop goes on
    only then. -/
theorem AtItem.lined (hitem : Sound item) (hseparator : Sound separator)
    (hbegin : t.isBoundary begin = true) (h : AtItem t item separator begin run) :
    run.Lined t begin ∧ begin + run.items.length ≤ run.last.taken := by
  induction h with
  | start => exact ⟨lined_start hbegin, Nat.le_refl _⟩
  | @next run e s h he hs hne ih =>
      obtain ⟨hlined, hle⟩ := ih
      obtain ⟨hfrom, hsound⟩ := sound_of_boundary (hitem t _ _ he) hlined.last.taken_boundary
      have hnext := hlined.addItem hfrom hsound
      obtain ⟨hfrom', hsound'⟩ := sound_of_boundary (hseparator t _ _ hs) hnext.last.taken_boundary
      have hitem : run.last.taken ≤ e.span.stop :=
        Nat.le_trans hfrom hsound.placed.span_start_le_stop
      have hsep : e.span.stop ≤ s.span.stop :=
        Nat.le_trans hfrom' hsound'.placed.span_start_le_stop
      refine ⟨hnext.addSeparator hfrom' hsound', ?_⟩
      show begin + (run.items ++ [e]).length ≤ s.span.stop
      rw [List.length_append, List.length_singleton]
      omega

/-- So the number of items is bounded by the positions that are left. -/
theorem AtEnd.length_le (hitem : Sound item) (hseparator : Sound separator)
    (hbegin : t.isBoundary begin = true) (h : AtEnd t item separator begin run) :
    run.items.length ≤ t.size - begin + 1 := by
  -- an item was read from where the text can be cut
  have hone {run : ItemRun} {e : Element} (h : AtItem t item separator begin run) :
      (run.items ++ [e]).length ≤ t.size - begin + 1 := by
    obtain ⟨hlined, hle⟩ := h.lined hitem hseparator hbegin
    have := Text.le_size_of_isBoundary hlined.last.taken_boundary
    rw [List.length_append, List.length_singleton]
    omega
  cases h with
  | empty => exact Nat.zero_le _
  | item h => exact hone h
  | separator h => exact hone h

/-- `runItems` leads from `AtItem` to `AtEnd`. -/
theorem AtItem.atEnd {run' : ItemRun} {bound : Nat} (hrun : AtItem t item separator begin run)
    (h : (runItems t item separator bound run).result = .ok run') :
    AtEnd t item separator begin run' := by
  induction bound generalizing run with
  | zero => cases h
  | succ bound ih =>
      obtain ⟨found, hfound, h⟩ := Traced.result_bind_eq_ok_iff.mp h
      cases found with
      | none =>
          obtain rfl := Except.ok.inj h
          cases hrun with
          | start => exact .empty hfound
          | next hrun he hs _ => exact .separator hrun he hs hfound
      | some e =>
          obtain ⟨found, hsep, h⟩ := Traced.result_bind_eq_ok_iff.mp h
          cases found with
          | none =>
              obtain rfl := Except.ok.inj h
              exact .item hrun hfound (.inl hsep)
          | some s =>
              dsimp only at h
              split at h
              next heq =>
                obtain rfl := Except.ok.inj h
                exact .item hrun hfound (.inr ⟨s, hsep, .inl heq⟩)
              next hne => exact ih (.next hrun hfound hsep hne) h

/-- `runItems` halts with one of its tokens and never with its bound, which `AtItem.lined` shows to be
    large enough. -/
theorem AtItem.exists_of_error {bound : Nat} {halt : Halt} (hitem : Sound item)
    (hseparator : Sound separator) (hbegin : t.isBoundary begin = true)
    (hrun : AtItem t item separator begin run) (hbound : t.size < begin + run.items.length + bound)
    (h : (runItems t item separator bound run).result = .error halt) :
    ∃ q, begin ≤ q ∧ t.isBoundary q = true ∧
      ((item t q).result = .error halt ∨ (separator t q).result = .error halt) := by
  induction bound generalizing run with
  | zero =>
      -- more rounds than places in the text, so the bound is never used up
      obtain ⟨hlined, hle⟩ := hrun.lined hitem hseparator hbegin
      have := Text.le_size_of_isBoundary hlined.last.taken_boundary
      omega
  | succ bound ih =>
      obtain ⟨hlined, hle⟩ := hrun.lined hitem hseparator hbegin
      have hfrom : begin ≤ run.last.taken := by omega
      have hcut := hlined.last.taken_boundary
      rcases Traced.result_bind_eq_error_iff.mp h with h | ⟨found, hfound, h⟩
      · exact ⟨run.last.taken, hfrom, hcut, .inl h⟩
      cases found with
      | none => cases h
      | some e =>
          obtain ⟨hstart, hsound⟩ := sound_of_boundary (hitem t _ _ hfound) hcut
          rcases Traced.result_bind_eq_error_iff.mp h with h | ⟨found, hsep, h⟩
          · have hto := Nat.le_trans hstart hsound.placed.span_start_le_stop
            exact ⟨e.span.stop, Nat.le_trans hfrom hto, hsound.placed.span_stop_boundary, .inr h⟩
          cases found with
          | none => cases h
          | some s =>
              dsimp only at h
              split at h
              · cases h
              next hne =>
                refine ih (.next hrun hfound hsep hne) ?_ h
                show t.size < begin + (run.items ++ [e]).length + bound
                rw [List.length_append, List.length_singleton]
                omega

/-! ### Tokens -/

/-- The items and separators that were read, one after the other: each item is there, and the last
    token is where the loop is. -/
structure Tokens (t : Text) (item separator : Recognizer) (begin : Nat) (run : ItemRun)
    (tokens : List Element) : Prop where
  read : (runAll t (inTurn item separator run.items.length run.trailing) begin).result
    = .ok (some (tokens, run.last.taken))
  item : ∀ i, i < run.items.length → tokens[2 * i]? = run.items[i]?
  last : run.last = (tokens.getLast?.map TokenEnd.of).getD ⟨begin, begin⟩

theorem Tokens.lt (h : run.Tokens t item separator begin tokens) {i : Nat}
    (hi : i < run.items.length) : 2 * i < tokens.length := by
  have hsome := (h.item i hi).trans (List.getElem?_eq_getElem hi)
  exact (List.getElem?_eq_some_iff.mp hsome).1

/-- The first of the `Tokens` is the first item, and the last one is where the run has come to. -/
theorem Tokens.ends {first : Element} (h : run.Tokens t item separator begin tokens)
    (hfirst : run.items.head? = some first) :
    tokens.head? = some first ∧ ∃ final, tokens.getLast? = some final ∧ run.last = .of final := by
  have hpositive : 0 < run.items.length := by
    obtain ⟨rest, hrest⟩ := List.head?_eq_some_iff.mp hfirst
    simp [hrest]
  have hhead : tokens.head? = some first := by
    rw [List.head?_eq_getElem?, h.item 0 hpositive, ← List.head?_eq_getElem?, hfirst]
  have hne : tokens ≠ [] := by
    rintro rfl
    cases hhead
  refine ⟨hhead, tokens.getLast hne, List.getLast?_eq_some_getLast hne, ?_⟩
  rw [h.last, List.getLast?_eq_some_getLast hne]
  rfl

theorem AtItem.length_tokens (h : AtItem t item separator begin run)
    (htokens : run.Tokens t item separator begin tokens) :
    tokens.length = 2 * run.items.length := by
  rw [(of_runAll htokens.read).1, h.trailing_eq, length_inTurn]

theorem Tokens.addItem (h : run.Tokens t item separator begin tokens)
    (hrun : AtItem t item separator begin run) (he : (item t run.last.taken).result = .ok (some e)) :
    (run.addItem e).Tokens t item separator begin (tokens ++ [e]) where
  read := by
    have hlength : (run.addItem e).items.length = run.items.length + 1 := by
      simp [ItemRun.addItem]
    show (runAll t (inTurn item separator (run.addItem e).items.length false) begin).result = _
    rw [hlength, inTurn_succ, ← hrun.trailing_eq]
    exact result_runAll_append h.read (result_runAll_singleton he)
  item := by
    intro i hi
    have htokens := hrun.length_tokens h
    show (tokens ++ [e])[2 * i]? = (run.items ++ [e])[i]?
    replace hi : i < run.items.length + 1 := by simpa [ItemRun.addItem] using hi
    rcases Nat.lt_succ_iff_lt_or_eq.mp hi with hlt | rfl
    · rw [List.getElem?_append_left (by omega), List.getElem?_append_left hlt]
      exact h.item i hlt
    · rw [← htokens, List.getElem?_concat_length, List.getElem?_concat_length]
  last := by simp [ItemRun.addItem]

theorem Tokens.addSeparator (h : (run.addItem e).Tokens t item separator begin tokens)
    (hs : (separator t e.span.stop).result = .ok (some s)) :
    ((run.addItem e).addSeparator s).Tokens t item separator begin (tokens ++ [s]) where
  read := by
    show (runAll t (inTurn item separator (run.addItem e).items.length true) begin).result = _
    rw [inTurn_trailing]
    exact result_runAll_append h.read (result_runAll_singleton hs)
  item := by
    intro i hi
    rw [List.getElem?_append_left (h.lt hi)]
    exact h.item i hi
  last := by simp [ItemRun.addSeparator]

/-- Every run of a list has the tokens that it went over. -/
theorem AtItem.exists_tokens (h : AtItem t item separator begin run) :
    ∃ tokens, run.Tokens t item separator begin tokens := by
  induction h with
  | start =>
      refine ⟨[], rfl, ?_, rfl⟩
      intro i hi
      cases hi
  | next h he hs _ ih =>
      obtain ⟨tokens, htokens⟩ := ih
      exact ⟨_, (htokens.addItem h he).addSeparator hs⟩

/-- The run `AtEnd` in `Tokens`. The last item is `IsLast`: none could be read behind it. -/
theorem AtEnd.exists_tokens (h : AtEnd t item separator begin run) :
    ∃ tokens, run.Tokens t item separator begin tokens ∧
      (run.items = [] → (item t begin).result = .ok none) ∧
      ∀ e, run.items.getLast? = some e →
        IsLast t item separator (endOf begin (tokens.take (2 * (run.items.length - 1)))) e := by
  -- up to the last item there are two tokens for each item, and the item begins where these end
  have hlast {run : ItemRun} {tokens more : List Element} {e last : Element}
      (h : AtItem t item separator begin run) (htokens : run.Tokens t item separator begin tokens)
      (hislast : IsLast t item separator run.last.taken e)
      (he : (run.items ++ [e]).getLast? = some last) :
      IsLast t item separator (endOf begin ((tokens ++ e :: more).take
        (2 * ((run.items ++ [e]).length - 1)))) last := by
    obtain rfl : e = last := by simpa using he
    have htake : 2 * ((run.items ++ [e]).length - 1) = tokens.length := by
      rw [h.length_tokens htokens]
      simp
    rw [htake, List.take_left, ← (of_runAll htokens.read).2]
    exact hislast
  cases h with
  | empty h =>
      have hstart : AtItem t item separator begin (.start begin) := .start
      obtain ⟨tokens, htokens⟩ := hstart.exists_tokens
      refine ⟨tokens, htokens, fun _ => h, ?_⟩
      intro e he
      cases he
  | item h he hislast =>
      obtain ⟨tokens, htokens⟩ := h.exists_tokens
      refine ⟨_, htokens.addItem h he, ?_, fun last hlast' => hlast h htokens hislast hlast'⟩
      intro hnil
      exact absurd hnil (List.append_ne_nil_of_right_ne_nil _ (List.cons_ne_nil _ _))
  | separator h he hs hmissed =>
      obtain ⟨tokens, htokens⟩ := h.exists_tokens
      refine ⟨_, (htokens.addItem h he).addSeparator hs, ?_, ?_⟩
      · intro hnil
        exact absurd hnil (List.append_ne_nil_of_right_ne_nil _ (List.cons_ne_nil _ _))
      · intro last hlast'
        rw [List.append_assoc]
        exact hlast h htokens (.inr ⟨_, hs, .inr hmissed⟩) hlast'

end ItemRun

/-! ## Lists -/

/-- The tokens of a list with so many items, brackets included. -/
def spelledOut {α : Type} (item separator : α) (opening closing : Option α) (n : Nat)
    (trailing : Bool) : List α :=
  opening.toList ++ (inTurn item separator n trailing ++ closing.toList)

namespace ListShape

variable {shape : ListShape} {begin : Nat}

/-- A list next to the parts of the sequence of its tokens. They take up the same, and the items are
    every other part; the last item is the last one that could be read, and there are no more items
    than places ahead, and one more. -/
structure Spelled (shape : ListShape) (t : Text) (pos : Nat) (x : Extent) (items : List Element)
    (trailing : Bool) (parts : List Element) : Prop where
  join : (join (spelledOut shape.item shape.separator shape.opening shape.closing items.length
    trailing) t pos).result = .ok (some (.join x parts))
  item : ∀ i, i < items.length → parts[shape.opening.toList.length + 2 * i]? = items[i]?
  empty : items = [] →
    (shape.item t (endOf pos (parts.take shape.opening.toList.length))).result = .ok none
  last : ∀ e, items.getLast? = some e → IsLast t shape.item shape.separator
    (endOf pos (parts.take (shape.opening.toList.length + 2 * (items.length - 1)))) e
  length_le : items.length ≤ t.size - pos + 1

/-- `open?` as `runAll` over at most one token. -/
theorem exists_opening {start? : Option Nat}
    (h : (shape.open? t pos).result = .ok (some (start?, begin))) :
    ∃ before, (runAll t shape.opening.toList pos).result = .ok (some (before, begin)) ∧
      start? = before.head?.map Element.start := by
  rcases exists_of_open? h with ⟨hnone, rfl, rfl⟩ | ⟨p, e, hp, he, rfl, rfl⟩
  · rw [hnone]
    exact ⟨[], rfl, rfl⟩
  · rw [hp]
    exact ⟨[e], result_runAll_singleton he, rfl⟩

/-- `close?` as `runAll` over at most one token, behind the items that are kept. -/
theorem exists_closing {run run' : ItemRun} {stop : TokenEnd}
    (hrun : run.AtEnd t shape.item shape.separator begin)
    (h : (shape.close? t run).result = .ok (some (run', stop))) :
    run'.AtEnd t shape.item shape.separator begin ∧ run'.items = run.items ∧ ∃ after,
      (runAll t shape.closing.toList run'.last.taken).result = .ok (some (after, stop.taken)) ∧
      stop = (after.getLast?.map TokenEnd.of).getD run'.last := by
  unfold close? at h
  dsimp only at h
  split at h
  next hnone =>
    obtain ⟨rfl, rfl⟩ := Prod.mk.inj (Option.some.inj (Except.ok.inj h))
    rw [hnone]
    split
    · exact ⟨hrun.trim, rfl, [], rfl, rfl⟩
    · exact ⟨hrun, rfl, [], rfl, rfl⟩
  next p hp =>
    split at h
    · cases h
    obtain ⟨found, hfound, h⟩ := Traced.result_bind_eq_ok_iff.mp h
    cases found with
    | none => cases h
    | some e =>
        obtain ⟨rfl, rfl⟩ := Prod.mk.inj (Option.some.inj (Except.ok.inj h))
        rw [hp]
        exact ⟨hrun, rfl, [e], result_runAll_singleton hfound, rfl⟩

/-- How a list was read: perhaps an opening bracket, then the items that it keeps, and perhaps a closing
    bracket. Each begins where the one before ended. -/
structure Reading (shape : ListShape) (t : Text) (pos : Nat) (before : List Element) (run : ItemRun)
    (after : List Element) (x : Extent) : Prop where
  opening : (runAll t shape.opening.toList pos).result = .ok (some (before, endOf pos before))
  items : run.AtEnd t shape.item shape.separator (endOf pos before)
  closing : (runAll t shape.closing.toList run.last.taken).result
    = .ok (some (after, endOf run.last.taken after))
  bracketed : run.items = [] → shape.mayBeEmpty = true
  /-- From the opening bracket or the first item to the closing bracket or the last token. -/
  extent : ∃ start stop, (before.head?.map Element.start <|> run.items.head?.map Element.start)
      = some start ∧ stop = (after.getLast?.map TokenEnd.of).getD run.last ∧
    (Extent.ofRange t start stop.stop ⟨pos, stop.taken⟩).result = .ok x

/-- Items begin at a cut of the text, behind the opening bracket. -/
theorem Reading.le_begin {before after : List Element} {run : ItemRun} {x : Extent}
    (h : shape.Reading t pos before run after x) (hopening : ∀ p ∈ shape.opening, Sound p)
    (hpos : t.isBoundary pos = true) :
    pos ≤ endOf pos before ∧ t.isBoundary (endOf pos before) = true := by
  have hparts : ∀ p ∈ shape.opening.toList, Sound p := fun p hp => hopening p (Option.mem_toList.mp hp)
  have hrow := row_of_runAll hparts hpos h.opening
  exact ⟨hrow.le, hrow.stop_boundary⟩

/-- The extent of a list runs from the first of its tokens to the last. Without items the closing bracket
    is the last token. -/
theorem Reading.ends {before tokens after : List Element} {run : ItemRun} {x : Extent}
    (h : shape.Reading t pos before run after x)
    (htokens : run.Tokens t shape.item shape.separator (endOf pos before) tokens) :
    ∃ first final, (before ++ (tokens ++ after)).head? = some first ∧
      (before ++ (tokens ++ after)).getLast? = some final ∧
      (Extent.ofRange t first.start final.stop ⟨pos, final.span.stop⟩).result = .ok x := by
  obtain ⟨start, stop, hstart, hstop, hx⟩ := h.extent
  have hhead : ∃ first, (before ++ (tokens ++ after)).head? = some first ∧ first.start = start := by
    rw [List.head?_append, List.head?_append]
    cases hbefore : before.head? with
    | some b =>
        rw [hbefore] at hstart
        exact ⟨b, rfl, Option.some.inj hstart⟩
    | none =>
        rw [hbefore] at hstart
        obtain ⟨first, hfirst, hat⟩ := Option.map_eq_some_iff.mp hstart
        rw [(htokens.ends hfirst).1]
        exact ⟨first, rfl, hat⟩
  have hlast : ∃ final, (before ++ (tokens ++ after)).getLast? = some final ∧ stop = .of final := by
    rw [List.getLast?_append, List.getLast?_append]
    cases hafter : after.getLast? with
    | some a =>
        rw [hafter] at hstop
        exact ⟨a, rfl, hstop⟩
    | none =>
        rw [hafter] at hstop
        cases hitems : run.items with
        | nil =>
            -- then there are brackets, and the closing one was read
            have hmay := h.bracketed hitems
            have hnil := List.getLast?_eq_none_iff.mp hafter
            have hnone : shape.closing = none := by simpa [hnil] using (of_runAll h.closing).1.symm
            simp [ListShape.mayBeEmpty, hnone] at hmay
        | cons first rest =>
            obtain ⟨-, final, hfinal, hat⟩ :=
              htokens.ends (List.head?_eq_some_iff.mpr ⟨rest, hitems⟩)
            rw [hfinal]
            exact ⟨final, rfl, hstop.trans hat⟩
  obtain ⟨first, hfirst, rfl⟩ := hhead
  obtain ⟨final, hfinal, rfl⟩ := hlast
  exact ⟨first, final, hfirst, hfinal, hx⟩

end ListShape

section

variable {shape : ListShape}

/-- A list that answers has a `Reading`: what stands in front of the items, the run over them, and what
    stands behind. -/
theorem exists_reading_of_list {e : Element} (h : (list shape t pos).result = .ok (some e)) :
    ∃ before run after x, shape.Reading t pos before run after x ∧
      e = .list x run.items run.trailing := by
  obtain ⟨opened, hopen, h⟩ := Traced.result_bind_eq_ok_iff.mp h
  rcases opened with _ | ⟨start?, begin⟩
  · cases h
  obtain ⟨run, hrun, h⟩ := Traced.result_bind_eq_ok_iff.mp h
  split at h
  · cases h
  next hitems =>
    obtain ⟨closed, hclose, h⟩ := Traced.result_bind_eq_ok_iff.mp h
    rcases closed with _ | ⟨run', stop⟩
    · cases h
    dsimp only at h
    split at h
    · cases h
    next start hstart =>
      obtain ⟨x, hx, h⟩ := Traced.result_bind_eq_ok_iff.mp h
      obtain rfl := Option.some.inj (Except.ok.inj h)
      obtain ⟨before, hbefore, rfl⟩ := ListShape.exists_opening hopen
      obtain rfl := (of_runAll hbefore).2
      obtain ⟨hend, hsame, after, hafter, hstop⟩ :=
        ListShape.exists_closing (ItemRun.AtItem.start.atEnd hrun) hclose
      rw [(of_runAll hafter).2] at hafter
      refine ⟨before, run', after, x, ⟨hbefore, hend, hafter, ?_, start, stop, hstart, hstop, hx⟩, rfl⟩
      rw [hsame]
      intro hnil
      simpa [hnil] using hitems

/-- Where `list` answers, the run over its tokens answers with the same positions (`Spelled`). Brackets,
    items and separators are put together by `runAll_append`. -/
theorem exists_spelled_of_list (hitem : Sound shape.item) (hseparator : Sound shape.separator)
    (hopening : ∀ p ∈ shape.opening, Sound p) (hpos : t.isBoundary pos = true) {e : Element}
    (h : (list shape t pos).result = .ok (some e)) :
    ∃ x items trailing parts, e = .list x items trailing ∧
      shape.Spelled t pos x items trailing parts := by
  obtain ⟨before, run, after, x, hreading, rfl⟩ := exists_reading_of_list h
  obtain ⟨tokens, htokens, hempty, hlast⟩ := hreading.items.exists_tokens
  have hopened := (of_runAll hreading.opening).1
  have hread :=
    result_runAll_append hreading.opening (result_runAll_append htokens.read hreading.closing)
  refine ⟨x, run.items, run.trailing, before ++ (tokens ++ after), rfl, ?_, ?_, ?_, ?_, ?_⟩
  · -- the list goes from its first token to its last, and so does the join
    obtain ⟨first, final, hfirst, hfinal, hx⟩ := hreading.ends htokens
    have hstop : endOf run.last.taken after = final.span.stop := by
      rw [(of_runAll hread).2, endOf, hfinal]
      rfl
    rw [hstop] at hread
    exact result_join hread hfirst hfinal hx
  · intro i hi
    have hlt := htokens.lt hi
    rw [← hopened, List.getElem?_append_right (Nat.le_add_right _ _), Nat.add_sub_cancel_left,
      List.getElem?_append_left hlt]
    exact htokens.item i hi
  · intro hnil
    rw [← hopened, List.take_left]
    exact hempty hnil
  · intro last hlast'
    have hwithin : 2 * (run.items.length - 1) ≤ tokens.length := by
      have hne : run.items ≠ [] := by
        intro hnil
        rw [hnil] at hlast'
        cases hlast'
      have hpositive := List.length_pos_iff.mpr hne
      exact Nat.le_of_lt (htokens.lt (by omega))
    rw [← hopened, List.take_length_add_append, List.take_append_of_le_length hwithin, endOf_append]
    exact hlast last hlast'
  · obtain ⟨hle, hbegin⟩ := hreading.le_begin hopening hpos
    have := hreading.items.length_le hitem hseparator hbegin
    omega

/-! ### Lists that are cut short -/

/-- A list halts in front of its items only with its opening bracket. -/
theorem exists_of_open?_error {halt : Halt} (h : (shape.open? t pos).result = .error halt) :
    ∃ p ∈ shape.opening, (p t pos).result = .error halt := by
  unfold ListShape.open? at h
  split at h
  · cases h
  next p hp =>
    rcases Traced.result_bind_eq_error_iff.mp h with h | ⟨found, -, h⟩
    · exact ⟨p, hp, h⟩
    · cases found <;> cases h

/-- And behind them only with its closing one. -/
theorem exists_of_close?_error {run : ItemRun} {halt : Halt}
    (h : (shape.close? t run).result = .error halt) :
    ∃ p ∈ shape.closing, (p t run.last.taken).result = .error halt := by
  unfold ListShape.close? at h
  dsimp only at h
  split at h
  · cases h
  next p hp =>
    split at h
    · cases h
    rcases Traced.result_bind_eq_error_iff.mp h with h | ⟨found, -, h⟩
    · exact ⟨p, hp, h⟩
    · cases found <;> cases h

/-- `list` halts behind its opening bracket only where an item, a separator or the closing bracket
    does. -/
theorem exists_of_opened_error (hitem : Sound shape.item) (hseparator : Sound shape.separator)
    {begin : Nat} {start? : Option Nat} (hpos : t.isBoundary pos = true) (hle : pos ≤ begin)
    (hbegin : t.isBoundary begin = true)
    (hopen : (shape.open? t pos).result = .ok (some (start?, begin))) {halt : Halt}
    (h : (list shape t pos).result = .error halt) :
    ∃ p ∈ shape.item :: shape.separator :: shape.closing.toList,
      ∃ q, begin ≤ q ∧ t.isBoundary q = true ∧ (p t q).result = .error halt := by
  rcases Traced.result_bind_eq_error_iff.mp h with h | ⟨opened, hopened, h⟩
  · cases hopen.symm.trans h
  obtain rfl := Except.ok.inj (hopen.symm.trans hopened)
  rcases Traced.result_bind_eq_error_iff.mp h with h | ⟨run, hrun, h⟩
  · have hbound : t.size < begin + 0 + itemBound t pos := by
      obtain ⟨rest, hrest⟩ := Option.isSome_iff_exists.mp hpos
      have := Text.size_of_from? hrest
      rw [itemBound, Text.ahead_of_from? hrest]
      omega
    obtain ⟨q, hfrom, hq, hor⟩ := ItemRun.AtItem.start.exists_of_error hitem hseparator hbegin hbound h
    rcases hor with h | h
    · exact ⟨shape.item, by simp, q, hfrom, hq, h⟩
    · exact ⟨shape.separator, by simp, q, hfrom, hq, h⟩
  split at h
  · cases h
  rcases Traced.result_bind_eq_error_iff.mp h with h | ⟨closed, hclose, h⟩
  · -- the closing bracket is looked for where the items that were read end
    obtain ⟨p, hp, h⟩ := exists_of_close?_error h
    have hlined := lined_runItems hitem hseparator (ItemRun.lined_start hbegin) hrun
    have hfrom : begin ≤ run.last.taken := Nat.le_trans hlined.row.le hlined.taken_le
    exact ⟨p, by simp [Option.mem_def.mp hp], run.last.taken, hfrom, hlined.last.taken_boundary, h⟩
  rcases closed with _ | ⟨run', stop⟩
  · cases h
  -- the element itself is always made
  dsimp only at h
  split at h
  · cases h
  next start hstart =>
    rcases Traced.result_bind_eq_error_iff.mp h with h | ⟨x, -, h⟩
    · obtain ⟨x, hx⟩ := Extent.exists_ok_ofRange t start stop.stop ⟨pos, stop.taken⟩
      cases hx.symm.trans h
    · cases h

/-- `list` halts only where one of its tokens does. -/
theorem exists_of_list_error (hitem : Sound shape.item) (hseparator : Sound shape.separator)
    (hopening : ∀ p ∈ shape.opening, Sound p) (hpos : t.isBoundary pos = true) {halt : Halt}
    (h : (list shape t pos).result = .error halt) :
    ∃ p ∈ shape.item :: shape.separator :: (shape.opening.toList ++ shape.closing.toList),
      ∃ q, pos ≤ q ∧ t.isBoundary q = true ∧ (p t q).result = .error halt := by
  rcases Traced.result_bind_eq_error_iff.mp h with hstopped | ⟨opened, hopen, hrest⟩
  · obtain ⟨p, hp, hstopped⟩ := exists_of_open?_error hstopped
    exact ⟨p, by simp [Option.mem_def.mp hp], pos, Nat.le_refl _, hpos, hstopped⟩
  rcases opened with _ | ⟨start?, begin⟩
  · cases hrest
  obtain ⟨hle, hbegin, -⟩ := le_of_open? hopening hpos hopen
  obtain ⟨p, hp, q, hfrom, hq, hstopped⟩ :=
    exists_of_opened_error hitem hseparator hpos hle hbegin hopen h
  have hsub := List.subset_append_right shape.opening.toList shape.closing.toList
  have hmem := List.cons_subset_cons shape.item (List.cons_subset_cons shape.separator hsub) hp
  exact ⟨p, hmem, q, Nat.le_trans hle hfrom, hq, hstopped⟩

end

end Recognizer

end Graft
