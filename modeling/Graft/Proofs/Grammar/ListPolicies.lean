import Graft.Proofs.Grammar.SpelledOut
import Graft.Proofs.Recognizer.Token

/-!
# `Graft.Proofs.Grammar.ListPolicies` — what the policies of a list decide

Two policies tell a list what to do with a separator behind its last item, and whether it may have no
items. They only filter and trim (`Grammar.list_policies`). A list that is not allowed to end with a
separator either refuses what the other one read, if it has a closing bracket, or gives the separator
back. A list that must not be empty refuses what is empty and leaves everything else alone.

The brackets and the items are read without a look at the policies, so lists that differ in nothing else
come to the same state (`ListShape.exists_finish_of_lists`). What they make of it is told by that state
and the policies alone (`ListShape.finish`).
-/

namespace Graft

namespace Recognizer

variable {t : Text} {pos : Nat}

namespace ItemRun

variable {item separator : Recognizer} {begin : Nat} {run : ItemRun} {last : Element}

/-- `AtEnd` says where the loop is once it has stopped: the token it remembers is that of the last
    item. -/
theorem AtEnd.item_eq (h : run.AtEnd t item separator begin) (hlast : run.items.getLast? = some last) :
    run.item = .of last := by
  cases h with
  | empty => cases hlast
  | @item run e =>
      obtain rfl : e = last := by simpa [addItem] using hlast
      rfl
  | @separator run e s =>
      obtain rfl : e = last := by simpa [addItem, addSeparator] using hlast
      rfl

/-- `ItemRun.trim` gives back nothing where no separator is left over. -/
theorem AtEnd.trim_eq (h : run.AtEnd t item separator begin) (htrailing : run.trailing = false) :
    run.trim = run := by
  cases h with
  | empty => rfl
  | item => rfl
  | separator => cases htrailing

/-- Then `last` and `item` are one token. -/
theorem AtEnd.last_eq (h : run.AtEnd t item separator begin) (htrailing : run.trailing = false) :
    run.last = run.item :=
  congrArg ItemRun.last (h.trim_eq htrailing).symm

end ItemRun

namespace ListShape

variable {shape : ListShape} {start? : Option Nat} {begin : Nat} {run run' : ItemRun}
  {stop : TokenEnd} {found found' : Option Element} {e : Element}
  {allowTrailing allowTrailing' allowEmpty allowEmpty' : Bool}

/-- The same list with other policies. -/
def withPolicies (shape : ListShape) (allowTrailing allowEmpty : Bool) : ListShape :=
  { shape with allowTrailing := allowTrailing, allowEmpty := allowEmpty }

/-- How a list is made when its items have been read. -/
def finish (shape : ListShape) (t : Text) (pos : Nat) (start? : Option Nat) (run : ItemRun) :
    Traced (Option Element) := do
  if run.items.isEmpty && !shape.mayBeEmpty then return none
  else
    match ← shape.close? t run with
    | none => return none
    | some (run, stop) =>
        match start? <|> run.items.head?.map Element.start with
        | none => return none
        | some start =>
            let extent ← Extent.ofRange t start stop.stop ⟨pos, stop.taken⟩
            return some (.list extent run.items run.trailing)

/-- `list` runs the loop before any policy is looked at. So lists that differ in `withPolicies` alone both
    answer nothing, or both `finish` the same run, and all the rest is about `finish`. -/
theorem exists_finish_of_lists
    (h : (list (shape.withPolicies allowTrailing allowEmpty) t pos).result = .ok found)
    (h' : (list (shape.withPolicies allowTrailing' allowEmpty') t pos).result = .ok found') :
    (found = none ∧ found' = none) ∨
      ∃ start? begin run, run.AtEnd t shape.item shape.separator begin ∧
        ((shape.withPolicies allowTrailing allowEmpty).finish t pos start? run).result = .ok found ∧
        ((shape.withPolicies allowTrailing' allowEmpty').finish t pos start? run).result
          = .ok found' := by
  obtain ⟨opened, hopen, h⟩ := Traced.result_bind_eq_ok_iff.mp h
  obtain ⟨opened', hopen', h'⟩ := Traced.result_bind_eq_ok_iff.mp h'
  obtain rfl := Except.ok.inj (hopen.symm.trans hopen')
  rcases opened with _ | ⟨start?, begin⟩
  · exact .inl ⟨(Except.ok.inj h).symm, (Except.ok.inj h').symm⟩
  obtain ⟨run, hrun, h⟩ := Traced.result_bind_eq_ok_iff.mp h
  obtain ⟨run', hrun', h'⟩ := Traced.result_bind_eq_ok_iff.mp h'
  obtain rfl := Except.ok.inj (hrun.symm.trans hrun')
  exact .inr ⟨start?, begin, run, ItemRun.AtItem.start.atEnd hrun, h, h'⟩

/-! ## Closing -/

/-- `close?` with a closing bracket changes nothing about the items. -/
theorem eq_of_close? {p : Recognizer} (hclosing : shape.closing = some p)
    (h : (shape.close? t run).result = .ok (some (run', stop))) : run' = run := by
  unfold close? at h
  rw [hclosing] at h
  dsimp only at h
  split at h
  · cases h
  obtain ⟨found, -, h⟩ := Traced.result_bind_eq_ok_iff.mp h
  cases found with
  | none => cases h
  | some e => exact (Prod.mk.inj (Option.some.inj (Except.ok.inj h))).1.symm

/-- The inversion of `finish`: a list that is made has been closed, with items as `close?` leaves them. -/
theorem exists_of_finish (h : (shape.finish t pos start? run).result = .ok (some e)) :
    ∃ run' stop x, (shape.close? t run).result = .ok (some (run', stop)) ∧
      e = .list x run'.items run'.trailing := by
  unfold finish at h
  split at h
  · cases h
  obtain ⟨closed, hclose, h⟩ := Traced.result_bind_eq_ok_iff.mp h
  rcases closed with _ | ⟨run', stop⟩
  · cases h
  dsimp only at h
  split at h
  · cases h
  obtain ⟨x, -, h⟩ := Traced.result_bind_eq_ok_iff.mp h
  exact ⟨run', stop, x, hclose, (Option.some.inj (Except.ok.inj h)).symm⟩

/-- A run with items has a first one, so `finish` always finds where the list starts. -/
theorem exists_start (start? : Option Nat) (hitems : run.items ≠ []) :
    ∃ start, (start? <|> run.items.head?.map Element.start) = some start := by
  obtain ⟨first, rest, hcons⟩ := List.exists_cons_of_ne_nil hitems
  rw [hcons]
  cases start? with
  | none => exact ⟨first.start, rfl⟩
  | some start => exact ⟨start, rfl⟩

/-- `finish` without items makes a list only if `mayBeEmpty`. -/
theorem result_finish_of_empty (hitems : run.items = []) (hempty : shape.mayBeEmpty = false) :
    (shape.finish t pos start? run).result = .ok none := by
  unfold finish
  rw [hitems, hempty, List.isEmpty_nil, Bool.not_false, Bool.and_self, if_pos rfl]
  rfl

/-- `finish` does not fail once `close?` has succeeded on a run with items. -/
theorem exists_finish_of_close? (pos : Nat) {start : Nat} (hitems : run.items ≠ [])
    (hclose : (shape.close? t run).result = .ok (some (run', stop)))
    (hstart : (start? <|> run'.items.head?.map Element.start) = some start) :
    ∃ x, (Extent.ofRange t start stop.stop ⟨pos, stop.taken⟩).result = .ok x ∧
      (shape.finish t pos start? run).result = .ok (some (.list x run'.items run'.trailing)) := by
  obtain ⟨x, hx⟩ := Extent.exists_ok_ofRange t start stop.stop ⟨pos, stop.taken⟩
  refine ⟨x, hx, ?_⟩
  have hsome : run.items.isEmpty = false := by simpa using hitems
  unfold finish
  rw [hsome, Bool.false_and, if_neg Bool.false_ne_true]
  apply Traced.result_bind_eq_ok_iff.mpr
  refine ⟨_, hclose, ?_⟩
  dsimp only
  rw [hstart]
  exact Traced.result_bind_eq_ok_iff.mpr ⟨x, hx, rfl⟩

/-! ## A separator behind the last item -/

/-- `finish` asks for `allowTrailing` only if a separator is left over. -/
theorem finish_of_not_trailing (h : run.trailing = false) :
    (shape.withPolicies false allowEmpty).finish t pos start? run
      = (shape.withPolicies true allowEmpty).finish t pos start? run := by
  have hclose : (shape.withPolicies false allowEmpty).close? t run
      = (shape.withPolicies true allowEmpty).close? t run := by
    simp only [close?, withPolicies, h, Bool.false_and]
  unfold finish
  rw [hclose]
  rfl

/-- With a closing bracket, trailing separators denied: the answer of the list that allows them if there
    is none, and else nothing. From `exists_finish_of_lists`, with `finish_of_not_trailing` for the first
    half. -/
theorem denied_of_closing {p : Recognizer} (hclosing : shape.closing = some p)
    (ha : (list (shape.withPolicies true allowEmpty) t pos).result = .ok found)
    (hd : (list (shape.withPolicies false allowEmpty) t pos).result = .ok found') :
    (∀ x items, found = some (.list x items false) → found' = found) ∧
      ((∀ x items, found ≠ some (.list x items false)) → found' = none) := by
  rcases exists_finish_of_lists ha hd with ⟨rfl, rfl⟩ | ⟨start?, begin, run, -, ha, hd⟩
  · exact ⟨fun _ _ _ => rfl, fun _ => rfl⟩
  -- what the list that may end with a separator has at its end is what the items were read with
  have hclosing' : (shape.withPolicies true allowEmpty).closing = some p := hclosing
  have hflag : ∀ e, found = some e → ∃ x items, e = .list x items run.trailing := by
    rintro e rfl
    obtain ⟨run', stop, x, hclose, rfl⟩ := exists_of_finish ha
    obtain rfl := eq_of_close? hclosing' hclose
    exact ⟨x, run'.items, rfl⟩
  cases htrailing : run.trailing with
  | false =>
      rw [finish_of_not_trailing htrailing] at hd
      obtain rfl := Except.ok.inj (ha.symm.trans hd)
      refine ⟨fun _ _ _ => rfl, ?_⟩
      intro hnone
      cases found with
      | none => rfl
      | some e =>
          obtain ⟨x, items, rfl⟩ := hflag e rfl
          rw [htrailing] at hnone
          exact absurd rfl (hnone x items)
  | true =>
      have hrefused : found' = none := by
        cases found' with
        | none => rfl
        | some e =>
            obtain ⟨run', stop, x, hclose, -⟩ := exists_of_finish hd
            simp [close?, withPolicies, hclosing, htrailing] at hclose
      refine ⟨?_, fun _ => hrefused⟩
      rintro x items rfl
      obtain ⟨y, items', he⟩ := hflag _ rfl
      rw [htrailing] at he
      cases he

/-- Without a closing bracket, `close?` keeps the whole run where trailing separators are allowed. -/
theorem close?_allowed (hclosing : shape.closing = none) (allowEmpty : Bool) (run : ItemRun) :
    ((shape.withPolicies true allowEmpty).close? t run).result = .ok (some (run, run.last)) := by
  simp [close?, withPolicies, hclosing]

/-- Where they are denied, `close?` makes it `trim`: a separator behind the last item is given back. -/
theorem close?_denied (hclosing : shape.closing = none) (allowEmpty : Bool)
    (hend : run.AtEnd t shape.item shape.separator begin) :
    ((shape.withPolicies false allowEmpty).close? t run).result
      = .ok (some (run.trim, run.item)) := by
  cases htrailing : run.trailing with
  | true =>
      simp [close?, withPolicies, hclosing, htrailing]
      rfl
  | false =>
      rw [hend.trim_eq htrailing, ← hend.last_eq htrailing]
      simp [close?, withPolicies, hclosing, htrailing]

/-- Without a closing bracket, trailing separators denied: the list is made all the same, of the items and
    from the start of the one that allows them, and ends with its last item. Both lists come from one run,
    closed by `close?_allowed` and `close?_denied`. -/
theorem denied_of_open (hitem : Sound shape.item) (hseparator : Sound shape.separator)
    (hopening : ∀ p ∈ shape.opening, Sound p) (hclosing : shape.closing = none)
    (hpos : t.isBoundary pos = true)
    (ha : (list (shape.withPolicies true allowEmpty) t pos).result = .ok found)
    (hd : (list (shape.withPolicies false allowEmpty) t pos).result = .ok found') :
    (found = none ∧ found' = none) ∨
      ∃ x y items trailing last, found = some (.list x items trailing) ∧
        found' = some (.list y items false) ∧ items.getLast? = some last ∧ y.isValid = true ∧
        y.start = x.start ∧ y.stop = last.stop ∧ y.span.stop = last.span.stop ∧
        (trailing = false → found' = found) := by
  have hsound (allowTrailing : Bool) : (list (shape.withPolicies allowTrailing allowEmpty)).Sound := by
    refine sound_list hitem hseparator hopening ?_
    intro p hp
    have hsome : shape.closing = some p := hp
    cases hclosing.symm.trans hsome
  have ha' := ha
  have hd' := hd
  rcases exists_finish_of_lists ha hd with hnone | ⟨start?, begin, run, hend, ha, hd⟩
  · exact .inl hnone
  by_cases hitems : run.items = []
  · have hmay (allowTrailing : Bool) :
        (shape.withPolicies allowTrailing allowEmpty).mayBeEmpty = false := by
      simp [mayBeEmpty, withPolicies, hclosing]
    left
    exact ⟨Except.ok.inj (ha.symm.trans (result_finish_of_empty hitems (hmay true))),
      Except.ok.inj (hd.symm.trans (result_finish_of_empty hitems (hmay false)))⟩
  right
  obtain ⟨last, hlast⟩ := Option.isSome_iff_exists.mp (List.getLast?_isSome.mpr hitems)
  obtain ⟨start, hstart⟩ := exists_start start? hitems
  obtain ⟨x, hx, hfinish⟩ := exists_finish_of_close? pos hitems
    (close?_allowed hclosing allowEmpty run) hstart
  obtain ⟨y, hy, hfinish'⟩ := exists_finish_of_close? pos hitems
    (close?_denied hclosing allowEmpty hend) hstart
  obtain rfl := Except.ok.inj (ha.symm.trans hfinish)
  obtain rfl := Except.ok.inj (hd.symm.trans hfinish')
  have hxvalid := (sound_of_boundary (hsound true t pos _ ha') hpos).2.placed.valid
  have hyvalid := (sound_of_boundary (hsound false t pos _ hd') hpos).2.placed.valid
  obtain rfl := Extent.eq_of_ofRange_of_isValid hx hxvalid
  obtain rfl := Extent.eq_of_ofRange_of_isValid hy hyvalid
  have hitem_eq := hend.item_eq hlast
  refine ⟨_, _, run.items, run.trailing, last, rfl, rfl, hlast, hyvalid, rfl, ?_, ?_, ?_⟩
  · exact congrArg TokenEnd.stop hitem_eq
  · exact congrArg TokenEnd.taken hitem_eq
  · intro htrailing
    rw [hend.trim_eq htrailing, hend.last_eq htrailing]

/-! ## Lists without items -/

/-- `finish` asks for `mayBeEmpty` only if there are no items. -/
theorem finish_of_items (hitems : run.items ≠ []) :
    (shape.withPolicies allowTrailing false).finish t pos start? run
      = (shape.withPolicies allowTrailing true).finish t pos start? run := by
  have hsome : run.items.isEmpty = false := by simpa using hitems
  unfold finish
  rw [hsome]
  rfl

/-- Empty lists denied: the answer of the list that allows them if it has items, and else nothing. From
    `exists_finish_of_lists` and `finish_of_items`. -/
theorem nonempty_of_list
    (h : (list (shape.withPolicies allowTrailing true) t pos).result = .ok found)
    (h' : (list (shape.withPolicies allowTrailing false) t pos).result = .ok found') :
    (∀ x items trailing, found = some (.list x items trailing) → items ≠ [] → found' = found) ∧
      ((∀ x items trailing, found = some (.list x items trailing) → items = []) →
        found' = none) := by
  rcases exists_finish_of_lists h h' with ⟨rfl, rfl⟩ | ⟨start?, begin, run, hend, h, h'⟩
  · exact ⟨fun _ _ _ _ _ => rfl, fun _ => rfl⟩
  have hend' : run.AtEnd t (shape.withPolicies allowTrailing true).item
      (shape.withPolicies allowTrailing true).separator begin := hend
  have hsame : ∀ e, found = some e → ∃ x trailing, e = .list x run.items trailing := by
    rintro e rfl
    obtain ⟨run', stop, x, hclose, rfl⟩ := exists_of_finish h
    obtain ⟨-, hitems, -⟩ := exists_closing hend' hclose
    exact ⟨x, run'.trailing, by rw [hitems]⟩
  by_cases hitems : run.items = []
  · have hmay : (shape.withPolicies allowTrailing false).mayBeEmpty = false := by
      simp [mayBeEmpty, withPolicies]
    obtain rfl := Except.ok.inj (h'.symm.trans (result_finish_of_empty hitems hmay))
    refine ⟨?_, fun _ => rfl⟩
    rintro x items trailing rfl hne
    obtain ⟨y, trailing', he⟩ := hsame _ rfl
    obtain ⟨-, rfl, -⟩ := Element.list.inj he
    exact absurd hitems hne
  · rw [finish_of_items hitems] at h'
    obtain rfl := Except.ok.inj (h.symm.trans h')
    refine ⟨fun _ _ _ _ _ => rfl, ?_⟩
    intro hempty
    cases found with
    | none => rfl
    | some e =>
        obtain ⟨x, trailing, rfl⟩ := hsame e rfl
        exact absurd (hempty x _ trailing rfl) hitems

end ListShape

end Recognizer

namespace Grammar

open Recognizer

/-- **Policies.** `list` rules that differ in their policies alone, of parts that do not halt behind a
    position where the text can be cut. All of them have answers there. Trailing separators denied: with a
    closing bracket the answer is `denied_of_closing`, and without one `denied_of_open`, which gives a
    dangling separator back and answers wherever the other list does. Empty lists denied: the answer is
    `nonempty_of_list`. -/
theorem list_policies (g : Grammar) {item separator : Rule} {opening closing : Option Rule} {t : Text}
    {pos : Nat} (hpos : t.isBoundary pos = true)
    (hparts : ∀ p ∈ item :: separator :: (opening.toList ++ closing.toList), ∀ q, pos ≤ q →
      t.isBoundary q = true → ∀ halt, (g.recognizer p t q).result ≠ .error halt) :
    let read := fun allowTrailing allowEmpty =>
      (g.recognizer (.list item separator opening closing allowTrailing allowEmpty) t pos).result
    (∀ allowEmpty, ∃ allowed denied,
      read true allowEmpty = .ok allowed ∧ read false allowEmpty = .ok denied ∧
      (closing ≠ none →
        (∀ x items, allowed = some (.list x items false) → denied = allowed) ∧
          ((∀ x items, allowed ≠ some (.list x items false)) → denied = none)) ∧
      (closing = none →
        (allowed = none ∧ denied = none) ∨
          ∃ x y items trailing last, allowed = some (.list x items trailing) ∧
            denied = some (.list y items false) ∧ items.getLast? = some last ∧ y.isValid = true ∧
            y.start = x.start ∧ y.stop = last.stop ∧ y.span.stop = last.span.stop ∧
            (trailing = false → denied = allowed))) ∧
    ∀ allowTrailing, ∃ any nonempty,
      read allowTrailing true = .ok any ∧ read allowTrailing false = .ok nonempty ∧
      (∀ x items trailing, any = some (.list x items trailing) → items ≠ [] → nonempty = any) ∧
      ((∀ x items trailing, any = some (.list x items trailing) → items = []) → nonempty = none) := by
  intro read
  let call : Slot → Recognizer := fun slot => g.recognizer (.forward slot)
  let shape : ListShape := ⟨item.recognizer call, separator.recognizer call,
    Rule.recognizer? call opening, Rule.recognizer? call closing, true, true⟩
  have hcall (slot : Slot) : (call slot).Sound := g.sound_recognizer _
  have hsound (r : Rule) : (r.recognizer call).Sound := Rule.sound_recognizer hcall r
  have hopening : ∀ p ∈ shape.opening, p.Sound := Rule.sound_recognizer? hcall opening
  have hread (allowTrailing allowEmpty : Bool) : read allowTrailing allowEmpty
      = (list (shape.withPolicies allowTrailing allowEmpty) t pos).result := by
    show (g.recognizer _ t pos).result = _
    rw [result_recognizer, Rule.recognizer]
    rfl
  have hanswers (allowTrailing allowEmpty : Bool) :
      ∃ found, read allowTrailing allowEmpty = .ok found := by
    cases hresult : read allowTrailing allowEmpty with
    | ok found => exact ⟨found, rfl⟩
    | error halt =>
        obtain ⟨p, hp, q, hle, hq, hstopped⟩ := exists_of_listRule_error hpos hresult
        exact absurd hstopped (hparts p hp q hle hq halt)
  constructor
  · intro allowEmpty
    obtain ⟨allowed, hallowed⟩ := hanswers true allowEmpty
    obtain ⟨denied, hdenied⟩ := hanswers false allowEmpty
    refine ⟨allowed, denied, hallowed, hdenied, ?_⟩
    rw [hread] at hallowed hdenied
    constructor
    · intro hclosing
      obtain ⟨p, hp⟩ := Option.ne_none_iff_exists'.mp hclosing
      have hsome : shape.closing = some (p.recognizer call) := by
        show Rule.recognizer? call closing = _
        rw [hp, Rule.recognizer?]
      exact ListShape.denied_of_closing hsome hallowed hdenied
    · intro hclosing
      have hnone : shape.closing = none := by
        show Rule.recognizer? call closing = _
        rw [hclosing, Rule.recognizer?]
      exact ListShape.denied_of_open (hsound item) (hsound separator) hopening hnone hpos hallowed
        hdenied
  · intro allowTrailing
    obtain ⟨found, hfound⟩ := hanswers allowTrailing true
    obtain ⟨nonempty, hnonempty⟩ := hanswers allowTrailing false
    refine ⟨found, nonempty, hfound, hnonempty, ?_⟩
    rw [hread] at hfound hnonempty
    exact ListShape.nonempty_of_list hfound hnonempty

/-- `list_policies` for two letters and two commas. The list that denies trailing separators gives the
    second comma back. -/
theorem list_policies_commas : ∃ x y items last,
    (empty.recognizer (.list (.symbol ['x']) (.symbol [',']) none none true true)
      ['x', ',', 'x', ','] 0).result = .ok (some (.list x items true)) ∧
    (empty.recognizer (.list (.symbol ['x']) (.symbol [',']) none none false true)
      ['x', ',', 'x', ','] 0).result = .ok (some (.list y items false)) ∧
    items.getLast? = some last ∧ x.stop = 4 ∧ y.stop = last.stop ∧ last.stop = 3 := by
  have hparts : ∀ p ∈ Rule.symbol ['x'] :: .symbol [','] :: (Option.toList none ++ Option.toList none),
      ∀ q, 0 ≤ q → Text.isBoundary ['x', ',', 'x', ','] q = true →
        ∀ halt, (empty.recognizer p ['x', ',', 'x', ','] q).result ≠ .error halt := by
    intro p hp q _ _ halt hstopped
    have hanswers (literal : Text) := exists_ok_symbol literal ['x', ',', 'x', ','] q
    replace hp : p ∈ [Rule.symbol ['x'], .symbol [',']] := hp
    rcases hp with _ | ⟨_, _ | ⟨_, ⟨⟩⟩⟩
    · obtain ⟨found, hfound⟩ := hanswers ['x']
      cases hfound.symm.trans hstopped
    · obtain ⟨found, hfound⟩ := hanswers [',']
      cases hfound.symm.trans hstopped
  have hread : (empty.recognizer (.list (.symbol ['x']) (.symbol [',']) none none true true)
      ['x', ',', 'x', ','] 0).result = .ok (some _) := rfl
  obtain ⟨allowed, denied, hallowed, hdenied, -, hopen⟩ :=
    (list_policies empty (Text.isBoundary_zero _) hparts).1 true
  rcases hopen rfl with ⟨rfl, -⟩ | ⟨x, y, items, trailing, last, rfl, rfl, hlast, -, -, hstop, -⟩
  · cases hread.symm.trans hallowed
  · have hsame := Option.some.inj (Except.ok.inj (hread.symm.trans hallowed))
    obtain ⟨rfl, rfl, rfl⟩ := Element.list.inj hsame
    obtain rfl := Option.some.inj hlast
    exact ⟨_, y, _, _, hread, hdenied, rfl, rfl, hstop, rfl⟩

end Grammar

end Graft
