import Graft.Proofs.Recognizer.Local

/-!
# `Graft.Proofs.Recognizer.LocalList` — lists and type names see only what lies ahead

Lists of local items are local (`local_list`), and so are type names (`local_typeName`).

While the items of a list are read, everything that it remembers moves along: its items and the ends of
the last item and of the last token (`ItemRun.shift`). The separator that ends a list by taking up
nothing is told by comparing two of these ends, and moving both keeps the answer. How many items may be
read follows from the text ahead, which is the same.
-/

namespace Graft

namespace Recognizer

variable {t rest : Text} {pos : Nat}

/-! ## What a list remembers, moved -/

/-- The end of a token `n` positions further on. -/
def TokenEnd.shift (n : Nat) (e : TokenEnd) : TokenEnd :=
  ⟨n + e.taken, n + e.stop⟩

theorem TokenEnd.of_shift {n : Nat} {e : Element} (h : e.isValid = true) :
    of (e.shift n) = (of e).shift n := by
  rw [of, of, shift, Element.span_shift h, Element.stop_shift h]
  rfl

namespace ItemRun

variable {n : Nat} {e : Element}

/-- The items read so far, `n` positions further on. -/
def shift (n : Nat) (run : ItemRun) : ItemRun :=
  ⟨run.items.map (Element.shift n), run.item.shift n, run.last.shift n, run.trailing⟩

theorem addItem_shift (run : ItemRun) (h : e.isValid = true) :
    (run.shift n).addItem (e.shift n) = (run.addItem e).shift n := by
  simp only [addItem, shift, TokenEnd.of_shift h, List.map_append, List.map_cons, List.map_nil]

theorem addSeparator_shift (run : ItemRun) (h : e.isValid = true) :
    (run.shift n).addSeparator (e.shift n) = (run.addSeparator e).shift n := by
  simp only [addSeparator, shift, TokenEnd.of_shift h]

end ItemRun

/-! ## Lists -/

/-- `runItems` commutes with `shift`. By induction on the bound, which is the same for both: each round
    reads its tokens by `Local.at_cut`, and `Lined` supplies the cut. -/
theorem result_runItems_shift (h : t.from? pos = some rest) {item separator : Recognizer}
    (hitem : Sound item) (hseparator : Sound separator) (hlocal : Local item)
    (hlocal' : Local separator) {begin : Nat} {run : ItemRun} (hrun : run.Lined rest begin)
    (bound : Nat) :
    (runItems t item separator bound (run.shift pos)).result
      = (runItems rest item separator bound run).result.map (ItemRun.shift pos) := by
  induction bound generalizing run with
  | zero => rfl
  | succ bound ih =>
      rw [runItems, runItems]
      apply Traced.result_bind_map (hlocal.at_cut h hrun.last.taken_boundary)
      intro found hfound
      cases found with
      | none => rfl
      | some e =>
          obtain ⟨hle, hsound⟩ := sound_of_boundary (hitem _ _ _ hfound) hrun.last.taken_boundary
          have hnext := hrun.addItem hle hsound
          simp only [Option.map_some, ItemRun.addItem_shift run hsound.placed.valid]
          apply Traced.result_bind_map (hlocal'.at_cut h hnext.last.taken_boundary)
          intro found hfound
          cases found with
          | none => rfl
          | some s =>
              obtain ⟨hle, hsound⟩ :=
                sound_of_boundary (hseparator _ _ _ hfound) hnext.last.taken_boundary
              have hvalid := hsound.placed.valid
              have hends : (s.shift pos).span.stop = (run.shift pos).last.taken ↔
                  s.span.stop = run.last.taken := by
                rw [Element.span_shift hvalid]
                exact Nat.add_left_cancel_iff
              simp only [Option.map_some, hends, ItemRun.addSeparator_shift _ hvalid]
              split
              · rfl
              · exact ih (hnext.addSeparator hle hsound)

theorem result_open?_shift (h : t.from? pos = some rest) {shape : ListShape}
    (hsound : ∀ p ∈ shape.opening, Sound p) (hlocal : ∀ p ∈ shape.opening, Local p) :
    (shape.open? t pos).result
      = (shape.open? rest 0).result.map
          (Option.map fun r => (r.1.map (pos + ·), pos + r.2)) := by
  unfold ListShape.open?
  split
  · rfl
  next p hp =>
    apply Traced.result_bind_map (hlocal p hp h)
    intro found hfound
    cases found with
    | none => rfl
    | some e =>
        have hvalid := (valid_of_answer (hsound p hp) (Text.isBoundary_zero rest) hfound).1
        simp only [Option.map_some, Element.start_shift hvalid, Element.span_shift hvalid]
        rfl

theorem result_close?_shift (h : t.from? pos = some rest) {shape : ListShape}
    (hsound : ∀ p ∈ shape.closing, Sound p) (hlocal : ∀ p ∈ shape.closing, Local p) {begin : Nat}
    {run : ItemRun} (hrun : run.Lined rest begin) :
    (shape.close? t (run.shift pos)).result
      = (shape.close? rest run).result.map
          (Option.map fun r => (r.1.shift pos, r.2.shift pos)) := by
  have htrailing : (run.shift pos).trailing = run.trailing := rfl
  simp only [ListShape.close?, htrailing]
  split
  · split <;> rfl
  next p hp =>
    split
    · rfl
    · apply Traced.result_bind_map (hlocal p hp |>.at_cut h hrun.last.taken_boundary)
      intro found hfound
      cases found with
      | none => rfl
      | some e =>
          have hvalid := (valid_of_answer (hsound p hp) hrun.last.taken_boundary hfound).1
          simp only [Option.map_some, TokenEnd.of_shift hvalid]
          rfl

/-- Where `list` starts, at its opening bracket or else at its first item, moves with them. -/
theorem start?_shift (pos : Nat) (start? : Option Nat) {items : List Element}
    (hvalid : ∀ e ∈ items, e.isValid = true) :
    (start?.map (pos + ·) <|> (items.map (Element.shift pos)).head?.map Element.start)
      = (start? <|> items.head?.map Element.start).map (pos + ·) := by
  cases start? with
  | some start => rfl
  | none =>
      cases items with
      | nil => rfl
      | cons first others => exact congrArg some (Element.start_shift (hvalid first (by simp)))

/-- Lists are `Local`: the loop over the items, and the brackets around it. -/
theorem local_list {shape : ListShape} (hitem : Sound shape.item)
    (hseparator : Sound shape.separator) (hopening : ∀ p ∈ shape.opening, Sound p)
    (hclosing : ∀ p ∈ shape.closing, Sound p) (litem : Local shape.item)
    (lseparator : Local shape.separator) (lopening : ∀ p ∈ shape.opening, Local p)
    (lclosing : ∀ p ∈ shape.closing, Local p) : Local (list shape) := by
  intro t rest pos h
  have hbound : itemBound t pos = itemBound rest 0 := by
    rw [itemBound, itemBound, Text.ahead_of_from? h, Text.ahead_of_from? (Text.from?_zero rest)]
  apply Traced.result_bind_map (result_open?_shift h hopening lopening)
  intro opened hopen
  rcases opened with _ | ⟨start?, begin⟩
  · rfl
  obtain ⟨-, hbegin, -⟩ := le_of_open? hopening (Text.isBoundary_zero rest) hopen
  have hstart := ItemRun.lined_start hbegin
  have hread := result_runItems_shift h hitem hseparator litem lseparator hstart (itemBound rest 0)
  dsimp only [Option.map_some]
  rw [hbound]
  apply Traced.result_bind_map hread
  intro run hrun
  have hlined := lined_runItems hitem hseparator hstart hrun
  have hempty : (run.shift pos).items.isEmpty = run.items.isEmpty := List.isEmpty_map
  rw [hempty]
  split
  · rfl
  · apply Traced.result_bind_map (result_close?_shift h hclosing lclosing hlined)
    intro closed hclose
    rcases closed with _ | ⟨run', stop⟩
    · rfl
    have hsame := (after_of_close? hclosing hlined hclose).1
    have hvalid : ∀ e ∈ run'.items, e.isValid = true := by
      rw [hsame]
      exact fun e he => (hlined.row.sound e he).placed.valid
    have hfirst := start?_shift pos start? hvalid
    dsimp only [Option.map_some, ItemRun.shift]
    rw [hfirst]
    cases (start? <|> run'.items.head?.map Element.start) with
    | none => rfl
    | some start =>
        refine result_ofRange_bind h start stop.stop ⟨0, stop.taken⟩ fun x => ?_
        rw [Element.shift, Element.shiftAll_eq_map]

/-! ## Type names -/

theorem result_ofName_shift (h : t.from? pos = some rest) {name : Extent}
    (hvalid : name.isValid = true) :
    (Element.ofName t (name.shift pos) (name.shift pos).span).result
      = (Element.ofName rest name name.span).result.map (Element.shift pos) := by
  rw [Extent.span_shift hvalid, Element.ofName, Element.ofName, Extent.start_shift hvalid,
    Extent.stop_shift hvalid]
  apply Traced.result_bind_map (Extent.result_ofRange_shift h _ _ _)
  intro x _
  simp only [Traced.result_pure, Except.map, Element.shift]

theorem result_ofGeneric_shift (h : t.from? pos = some rest) {name arguments whole : Extent}
    (items : List Element) (trailing : Bool) (hname : name.isValid = true)
    (harguments : arguments.isValid = true) (hwhole : whole.isValid = true) :
    (Element.ofGeneric t (name.shift pos) (arguments.shift pos) (Element.shiftAll pos items) trailing
        (whole.shift pos).span).result
      = (Element.ofGeneric rest name arguments items trailing whole.span).result.map
          (Element.shift pos) := by
  rw [Extent.span_shift hwhole, Element.ofGeneric, Element.ofGeneric, Extent.start_shift hname,
    Extent.span_shift harguments]
  apply Traced.result_bind_map (Extent.result_ofRange_shift h _ _ _)
  intro x _
  simp only [Traced.result_pure, Except.map, Element.shift]

/-- `asTypeName` commutes with `shift`, as it goes by the shapes of elements alone. -/
theorem result_asTypeName_shift (h : t.from? pos = some rest) {e : Element} (hsound : e.Sound rest) :
    (asTypeName t (e.shift pos)).result = (asTypeName rest e).result.map (Element.shift pos) := by
  cases e with
  | word name | dottedWord name =>
      rw [Element.shift]
      exact result_ofName_shift h hsound.placed.valid
  | join x items =>
      rw [Element.shift]
      rcases items with _ | ⟨first, _ | ⟨second, _ | ⟨third, others⟩⟩⟩
      · rfl
      · cases first <;> rfl
      · have hfirst := (hsound.parts first (by simp [Element.parts])).placed.valid
        have hsecond := (hsound.parts second (by simp [Element.parts])).placed.valid
        cases second with
        | list arguments items trailing =>
            cases first with
            | word name | dottedWord name =>
                exact result_ofGeneric_shift h items trailing hfirst hsecond hsound.placed.valid
            | _ => rfl
        | _ => cases first <;> rfl
      · cases first <;> cases second <;> rfl
  | _ => rfl

theorem local_arguments {argument : Recognizer} (hsound : Sound argument)
    (hlocal : Local argument) : Local (arguments argument) := by
  have hbracket (literal : Text) : ∀ p ∈ some (symbol literal), Sound p ∧ Local p := by
    rintro p ⟨⟩
    exact ⟨sound_symbol literal, local_symbol literal⟩
  exact local_list hsound (sound_symbol _) (fun p hp => (hbracket _ p hp).1)
    (fun p hp => (hbracket _ p hp).1) hlocal (local_symbol _) (fun p hp => (hbracket _ p hp).2)
    (fun p hp => (hbracket _ p hp).2)

/-- Type names are `Local`, as a name and a list of arguments. -/
theorem local_typeName {name argument : Recognizer} (hname : Sound name)
    (hargument : Sound argument) (lname : Local name) (largument : Local argument) :
    Local (typeName name argument) := by
  have hgeneric : Local (join [name, arguments argument]) := by
    apply local_join
    · exact List.forall_mem_cons.mpr ⟨hname, List.forall_mem_singleton.mpr (sound_arguments hargument)⟩
    · exact List.forall_mem_cons.mpr
        ⟨lname, List.forall_mem_singleton.mpr (local_arguments hargument largument)⟩
  have hchoice : Local (choice [join [name, arguments argument], name]) :=
    local_choice (List.forall_mem_cons.mpr ⟨hgeneric, List.forall_mem_singleton.mpr lname⟩)
  intro t rest pos h
  apply Traced.result_bind_map (hchoice h)
  intro found hfound
  cases found with
  | none => rfl
  | some e =>
      have hanswer := sound_nameOrGeneric hname hargument rest 0 _ hfound
      have hsound := (sound_of_boundary hanswer (Text.isBoundary_zero rest)).2
      apply Traced.result_bind_map (result_asTypeName_shift h hsound)
      intro e' _
      rfl

end Recognizer

end Graft
