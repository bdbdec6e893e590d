import Graft.Proofs.Recognizer.Token
import Graft.Recognizer.Combinator

/-!
# `Graft.Proofs.Recognizer.Items` — what lists and type names read, step by step

What a combinator answers follows from what its parts answer. The lemmas here say how: one for each way
in which the items of a list go on or end, and one for each form of a type name.
-/

namespace Graft

namespace Recognizer

variable {t : Text} {pos : Nat}

/-! ## The items of a list -/

section

variable {item separator : Recognizer} {bound : Nat} {run : ItemRun} {e s : Element}

/-- One round of `runItems` where no item is found: the loop ends. -/
theorem result_runItems_stop (h : (item t run.last.taken).result = .ok none) :
    (runItems t item separator (bound + 1) run).result = .ok run := by
  simp [runItems, h, Except.bind]

/-- One round of `runItems` where an item has no separator behind it: the loop ends with the item. -/
theorem result_runItems_last (h : (item t run.last.taken).result = .ok (some e))
    (h' : (separator t e.span.stop).result = .ok none) :
    (runItems t item separator (bound + 1) run).result = .ok (run.addItem e) := by
  have hlast : (run.addItem e).last.taken = e.span.stop := rfl
  simp [runItems, h, hlast, h', Except.bind]

/-- One round of `runItems` with an item and a separator: the loop goes on, unless both of them took up
    nothing. -/
theorem result_runItems_next (h : (item t run.last.taken).result = .ok (some e))
    (h' : (separator t e.span.stop).result = .ok (some s)) (hne : s.span.stop ≠ run.last.taken) :
    (runItems t item separator (bound + 1) run).result
      = (runItems t item separator bound ((run.addItem e).addSeparator s)).result := by
  have hlast : (run.addItem e).last.taken = e.span.stop := rfl
  simp [runItems, h, hlast, h', hne, Except.bind]

/-- `result_runItems_next` for a separator that is a `symbol` and stands behind some blanks. -/
theorem result_runItems_symbol {literal gap rest : Text}
    (hitem : (item t run.last.taken).result = .ok (some e)) (hle : run.last.taken ≤ e.span.stop)
    (h : t.from? e.span.stop = some (gap ++ (literal ++ rest)))
    (hgap : ∀ c ∈ gap, isSkipped c = true)
    (hliteral : ∃ c, literal.head? = some c ∧ isSkipped c = false) (bound : Nat) :
    ∃ run' : ItemRun, run'.items = run.items ++ [e] ∧ run'.trailing = true ∧
      run'.last = ⟨e.span.stop + gap.size + literal.size, e.span.stop + gap.size + literal.size⟩ ∧
      t.from? run'.last.taken = some rest ∧
      (runItems t item (symbol literal) (bound + 1) run).result
        = (runItems t item (symbol literal) bound run').result := by
  have hsymbol := result_symbol h hgap hliteral
  have hrest : t.from? (e.span.stop + gap.size + literal.size) = some rest :=
    Text.from?_add_size (Text.from?_add_size h)
  refine ⟨(run.addItem e).addSeparator (.symbol (.token e.span.stop gap literal)), rfl, rfl, rfl,
    hrest, result_runItems_next hitem hsymbol ?_⟩
  -- the literal takes up a character at least, so the loop does not stand still
  obtain ⟨c, hhead, -⟩ := hliteral
  obtain ⟨others, rfl⟩ := List.head?_eq_some_iff.mp hhead
  have hpos := c.utf8Size_pos
  show e.span.stop + gap.size + Text.size (c :: others) ≠ run.last.taken
  rw [Text.size_cons]
  omega

end

/-- `list` without brackets, where a trailing separator is allowed: it ends with the last token that
    `runItems` has read. -/
theorem result_list_bare {shape : ListShape} {run : ItemRun} {first : Element}
    (hopening : shape.opening = none) (hclosing : shape.closing = none)
    (htrailing : shape.allowTrailing = true)
    (hrun : (runItems t shape.item shape.separator (itemBound t pos) (.start pos)).result = .ok run)
    (hfirst : run.items.head? = some first) :
    (list shape t pos).result
      = (Extent.ofRange t first.start run.last.stop ⟨pos, run.last.taken⟩).result.map
          fun x => some (.list x run.items run.trailing) := by
  have hempty : run.items.isEmpty = false := by
    obtain ⟨others, hcons⟩ := List.head?_eq_some_iff.mp hfirst
    rw [hcons]
    rfl
  unfold list ListShape.open? ListShape.close?
  simp only [hopening, hclosing, htrailing, Traced.result_bind, Traced.result_pure, Except.bind, hrun,
    hempty, hfirst, Bool.false_and, Bool.not_true, Bool.and_false, Bool.false_eq_true, if_false,
    Option.map_some]
  exact Traced.result_bind_pure (Extent.ofRange t first.start run.last.stop ⟨pos, run.last.taken⟩) _

/-! ## Arguments -/

section

variable {argument : Recognizer}

theorem result_arguments_none (h : (symbol ['<'] t pos).result = .ok none) :
    (arguments argument t pos).result = .ok none := by
  simp [arguments, list, ListShape.open?, h, Except.bind]

/-- `arguments` puts together what stands between two angle brackets. -/
theorem result_arguments {opening closing : Element} {run : ItemRun}
    (hopen : (symbol ['<'] t pos).result = .ok (some opening))
    (hrun : (runItems t argument (symbol [',']) (itemBound t pos) (.start opening.span.stop)).result
      = .ok run) (hitems : run.items ≠ [])
    (hclose : (symbol ['>'] t run.last.taken).result = .ok (some closing)) :
    (arguments argument t pos).result
      = (Extent.ofRange t opening.start closing.stop ⟨pos, closing.span.stop⟩).result.map
          fun x => some (.list x run.items run.trailing) := by
  have hempty : run.items.isEmpty = false := by simpa using hitems
  unfold arguments list ListShape.open? ListShape.close?
  simp only [Traced.result_bind, hopen, hrun, hempty, hclose, Except.bind, Traced.result_pure,
    Bool.false_and, Bool.not_true, Bool.and_false, Bool.false_eq_true, if_false, TokenEnd.of]
  exact Traced.result_bind_pure (Extent.ofRange t opening.start closing.stop ⟨pos, closing.span.stop⟩) _

/-! ## Type names -/

variable {name : Recognizer} {x y : Extent}

theorem result_typeName_none (h : (name t pos).result = .ok none) :
    (typeName name argument t pos).result = .ok none := by
  simp [typeName, choice, join, runAll, h, Except.bind]

/-- `typeName` where no `arguments` follow the name. -/
theorem result_typeName_plain (h : (name t pos).result = .ok (some (.dottedWord x)))
    (h' : (arguments argument t x.span.stop).result = .ok none) :
    (typeName name argument t pos).result = (Element.ofName t x x.span).result.map some := by
  have hspan : (Element.dottedWord x).span = x.span := rfl
  simp [typeName, choice, join, runAll, h, hspan, h', Except.bind, asTypeName]

/-- `typeName` with `arguments` behind the name. -/
theorem result_typeName_generic {whole : Extent} {items : List Element} {trailing : Bool}
    (h : (name t pos).result = .ok (some (.dottedWord x)))
    (h' : (arguments argument t x.span.stop).result = .ok (some (.list y items trailing)))
    (hwhole : (Extent.ofRange t x.start y.stop ⟨pos, y.span.stop⟩).result = .ok whole) :
    (typeName name argument t pos).result
      = (Element.ofGeneric t x y items trailing whole.span).result.map some := by
  have hspan : (Element.dottedWord x).span = x.span := rfl
  have hjoin : (Element.ofJoin t [.dottedWord x, .list y items trailing] ⟨pos, y.span.stop⟩).result
      = .ok (.join whole [.dottedWord x, .list y items trailing]) := by
    show (Extent.ofRange t x.start y.stop ⟨pos, y.span.stop⟩ >>= fun z =>
      (pure (.join z _) : Traced Element)).result = _
    rw [Traced.result_bind, hwhole]
    rfl
  have hstop : (Element.list y items trailing).span.stop = y.span.stop := rfl
  simp [typeName, choice, join, runAll, h, hspan, h', hstop, hjoin, Except.bind, asTypeName]

end

end Recognizer

end Graft
