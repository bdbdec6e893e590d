import Graft.Proofs.Recognizer.Items
import Graft.Proofs.TypeName.Layout
import Graft.Rule

/-!
# `Graft.Proofs.TypeName.Read` — what is written as a type name is read as one

A type name whose slot leads back to it reads every written form of every tree
(`exists_found_of_layout`). The proof follows the layout. Each argument starts where the comma before it
ended; a name is read as far as it was written, since neither blanks, brackets nor commas go on with it;
and where the name is plain, no bracket follows that could be taken for the start of arguments.

How deep the slot may be followed is bounded, and so is the number of items. Both bounds are kept above
the length of what is still to be read: every argument is shorter than the text around it.
-/

namespace Graft

namespace TypeTree

open Recognizer

variable {t more : Text} {pos : Nat}

/-- What is to be found where a type name is written: an element for the tree that takes up the text,
    and whose content is the text without the blanks before it. -/
structure Found (t : Text) (pos : Nat) (tree : TypeTree) (s : Text) (e : Element) : Prop where
  tree_eq : e.typeTree? t = some tree
  extent_eq : e.extent = .token pos (s.takeWhile isSkipped) (s.dropWhile isSkipped)

theorem Found.span_eq {tree : TypeTree} {s : Text} {e : Element} (h : Found t pos tree s e) :
    e.span = ⟨pos, pos + s.size⟩ := by
  have hsize : s.size = Text.size (s.takeWhile isSkipped) + Text.size (s.dropWhile isSkipped) := by
    rw [← Text.size_append, List.takeWhile_append_dropWhile]
  rw [Element.span, h.extent_eq, hsize, ← Nat.add_assoc]
  rfl

/-- The content of a type name that was `Found` is its text without the white space in front. -/
theorem Found.content?_eq {tree : TypeTree} {s : Text} {e : Element} (h : Found t pos tree s e)
    (hs : t.from? pos = some (s ++ more)) : e.content? t = some (s.dropWhile isSkipped) := by
  have hfrom : t.from? pos = some (s.takeWhile isSkipped ++ (s.dropWhile isSkipped ++ more)) := by
    rw [← List.append_assoc, List.takeWhile_append_dropWhile, hs]
  rw [Element.content?, h.extent_eq]
  exact Extent.content?_token hfrom

/-! ## Names -/

/-- The blanks before a name are all that a `Layout` starts with. -/
theorem takeWhile_lead {lead name : Text} (hlead : lead.Skipped) (hname : Token.IsDottedName name)
    (rest : Text) :
    (lead ++ (name ++ rest)).takeWhile isSkipped = lead ∧
      (lead ++ (name ++ rest)).dropWhile isSkipped = name ++ rest := by
  apply takeWhile_isSkipped hlead
  obtain ⟨⟨c, hhead, hstart⟩, -⟩ := hname.isName
  intro d hd
  rw [List.head?_append, hhead] at hd
  obtain rfl := Option.some.inj hd
  cases hc : isSkipped c with
  | false => rfl
  | true =>
      have hskipped : Text.Skipped [c] := by simpa [Text.Skipped] using hc
      have hspace := hskipped.isWhiteSpace c (by simp)
      rw [Token.not_isWhiteSpace_of_wordStart hstart] at hspace
      cases hspace

/-- A plain `Layout` where `ClosesArgument` holds: `typeName` reads the name, whatever reads the
    arguments. -/
theorem exists_found_plain {lead name : Text} (hlead : lead.Skipped)
    (hname : Token.IsDottedName name) (h : t.from? pos = some ((lead ++ name) ++ more))
    (hmore : more.ClosesArgument) (argument : Recognizer) :
    ∃ e, (typeName dottedWord argument t pos).result = .ok (some e) ∧
      Found t pos (.plain name) (lead ++ name) e := by
  have h : t.from? pos = some (lead ++ (name ++ more)) := by rw [h, List.append_assoc]
  have hword := result_dottedWord h hlead.isWhiteSpace hname hmore.endsDottedName
  have hrest : t.from? (pos + lead.size + name.size) = some more :=
    Text.from?_add_size (Text.from?_add_size h)
  have hmiss : ¬ ['<'] <+: more.dropWhile isSkipped := by
    rintro ⟨rest, hrest⟩
    have hhead : (more.dropWhile isSkipped).head? = some '<' := by rw [← hrest]; rfl
    rcases hmore '<' hhead with hc | hc <;> cases hc
  have harguments : (arguments argument t (pos + lead.size + name.size)).result = .ok none :=
    result_arguments_none (result_symbol_none hrest hmiss)
  have hplain : (Element.ofName t (.token pos lead name) (Extent.token pos lead name).span).result
      = .ok (.typeName (.token pos lead name) (.token pos lead name)) :=
    Traced.result_bind_eq_ok_iff.mpr ⟨_, Extent.result_ofRange_token h, rfl⟩
  refine ⟨.typeName (.token pos lead name) (.token pos lead name), ?_, ?_, ?_⟩
  · rw [result_typeName_plain hword harguments, hplain]
    rfl
  · rw [Element.typeTree?, Extent.content?_token h]
    rfl
  · have hsplit := takeWhile_lead hlead hname []
    rw [List.append_nil] at hsplit
    rw [hsplit.1, hsplit.2]
    rfl

/-! ## Arguments -/

/-- What is to be known when the arguments of a type name have been read up to the closing bracket: the
    items read in addition to earlier ones, and where the bracket is to be found. -/
structure ReadUp (t : Text) (stop : Nat) (more : Text) (arguments : List TypeTree)
    (trailing : Bool) (earlier : List Element) (run : ItemRun) : Prop where
  items : ∃ items, run.items = earlier ++ items ∧ Element.typeTrees? t items = some arguments
  trailing_eq : run.trailing = trailing
  closing : ∃ gap : Text, gap.Skipped ∧ t.from? run.last.taken = some (gap ++ '>' :: more) ∧
    run.last.taken + gap.size + 1 = stop

/-- One tree more in front of what is `ReadUp`. -/
theorem ReadUp.cons {stop : Nat} {arguments : List TypeTree} {trailing : Bool}
    {earlier : List Element} {run : ItemRun} {tree : TypeTree} {e : Element}
    (h : ReadUp t stop more arguments trailing (earlier ++ [e]) run)
    (he : e.typeTree? t = some tree) :
    ReadUp t stop more (tree :: arguments) trailing earlier run := by
  obtain ⟨items, hitems, htrees⟩ := h.items
  refine ⟨⟨e :: items, by rw [hitems, List.append_assoc]; rfl, ?_⟩, h.trailing_eq, h.closing⟩
  rw [Element.typeTrees?, he, htrees]
  rfl

/-- One round of `runItems`, over an item and its comma. -/
theorem result_runItems_comma {argument : Recognizer} {run : ItemRun} {e : Element}
    {s gap rest : Text} {tree : TypeTree} (hgap : gap.Skipped)
    (h : t.from? run.last.taken = some (s ++ (gap ++ ',' :: rest)))
    (hitem : (argument t run.last.taken).result = .ok (some e))
    (hfound : Found t run.last.taken tree s e) (bound : Nat) :
    ∃ run' : ItemRun, run'.items = run.items ++ [e] ∧ run'.trailing = true ∧
      run'.last.taken = run.last.taken + (s.size + (gap.size + 1)) ∧
      t.from? run'.last.taken = some rest ∧
      (runItems t argument (symbol [',']) (bound + 1) run).result
        = (runItems t argument (symbol [',']) bound run').result := by
  have hstop : e.span.stop = run.last.taken + s.size := by rw [hfound.span_eq]
  have hrest : t.from? e.span.stop = some (gap ++ ([','] ++ rest)) := by
    rw [hstop]
    exact Text.from?_add_size h
  obtain ⟨run', hitems, htrailing, hlast, hrest', hrun⟩ :=
    result_runItems_symbol hitem (by omega) hrest hgap ⟨',', rfl, rfl⟩ bound
  refine ⟨run', hitems, htrailing, ?_, hrest', hrun⟩
  rw [hlast]
  show e.span.stop + gap.size + 1 = _
  omega

/-- `typeName` reads nothing where the closing bracket comes next, which ends a list with a trailing
    comma. -/
theorem result_typeName_closing {gap : Text} (h : t.from? pos = some (gap ++ '>' :: more))
    (hgap : gap.Skipped) (argument : Recognizer) :
    (typeName dottedWord argument t pos).result = .ok none := by
  apply result_typeName_none
  apply result_dottedWord_none h hgap.isWhiteSpace
  rintro c ⟨⟩
  exact ⟨rfl, rfl⟩

/-- The arguments are `ReadUp` with the last one, if the closing bracket stands behind it. -/
theorem exists_readUp_last {argument : Recognizer} {run : ItemRun} {e : Element} {s gap : Text}
    {tree : TypeTree} (hgap : gap.Skipped)
    (h : t.from? run.last.taken = some (s ++ (gap ++ '>' :: more)))
    (hitem : (argument t run.last.taken).result = .ok (some e))
    (hfound : Found t run.last.taken tree s e) (bound : Nat) :
    ∃ run', (runItems t argument (symbol [',']) (bound + 1) run).result = .ok run' ∧
      ReadUp t (run.last.taken + (s.size + (gap.size + 1))) more [tree] false run.items run' := by
  have hstop : e.span.stop = run.last.taken + s.size := by rw [hfound.span_eq]
  have hrest : t.from? e.span.stop = some (gap ++ '>' :: more) := by
    rw [hstop, Text.from?_add_size h]
  have hcomma := result_symbol_other hrest hgap rfl (show ',' ≠ '>' by decide)
  refine ⟨run.addItem e, result_runItems_last hitem hcomma, ⟨[e], rfl, ?_⟩, rfl, gap, hgap, hrest, ?_⟩
  · rw [Element.typeTrees?, hfound.tree_eq]
    rfl
  · show e.span.stop + gap.size + 1 = _
    omega

/-- And if a comma and the closing bracket do, by `result_typeName_closing`. -/
theorem exists_readUp_trailing {argument : Recognizer} {run : ItemRun} {e : Element}
    {s gap gap' : Text} {tree : TypeTree} {bound : Nat} (hgap : gap.Skipped) (hgap' : gap'.Skipped)
    (h : t.from? run.last.taken = some (s ++ (gap ++ ',' :: (gap' ++ '>' :: more))))
    (hitem : (typeName dottedWord argument t run.last.taken).result = .ok (some e))
    (hfound : Found t run.last.taken tree s e) (hbound : 1 < bound) :
    ∃ run', (runItems t (typeName dottedWord argument) (symbol [',']) bound run).result = .ok run' ∧
      ReadUp t (run.last.taken + (s.size + (gap.size + (gap'.size + 1 + 1)))) more [tree] true
        run.items run' := by
  obtain ⟨bound, rfl⟩ : ∃ b, bound = b + 2 := ⟨bound - 2, by omega⟩
  obtain ⟨run', hitems, htrailing, htaken, hrest, hrun⟩ :=
    result_runItems_comma hgap h hitem hfound (bound + 1)
  have hstop : (runItems t (typeName dottedWord argument) (symbol [',']) (bound + 1) run').result
      = .ok run' := result_runItems_stop (result_typeName_closing hrest hgap' argument)
  refine ⟨run', hrun.trans hstop, ⟨[e], hitems, ?_⟩, htrailing, gap', hgap', hrest, ?_⟩
  · rw [Element.typeTrees?, hfound.tree_eq]
    rfl
  · omega

/-- `arguments` of items that are `ReadUp` to the closing bracket. -/
theorem result_arguments_of_readUp {q : Nat} {gap inner : Text} {arguments : List TypeTree}
    {trailing : Bool} {argument : Recognizer} {run : ItemRun} (hgap : gap.Skipped)
    (h : t.from? q = some (gap ++ '<' :: (inner ++ more))) (hne : arguments ≠ [])
    (hrun : (runItems t argument (symbol [',']) (itemBound t q) (.start (q + gap.size + 1))).result
      = .ok run)
    (hread : ReadUp t (q + gap.size + 1 + inner.size) more arguments trailing [] run) :
    ∃ items, (Recognizer.arguments argument t q).result
        = .ok (some (.list (.token q gap ('<' :: inner)) items trailing)) ∧
      Element.typeTrees? t items = some arguments := by
  obtain ⟨⟨items, hitems, htrees⟩, rfl, gap', hgap', hclosing, hstop⟩ := hread
  obtain rfl : run.items = items := hitems
  refine ⟨run.items, ?_, htrees⟩
  have hat : t.from? q = some (gap ++ (['<'] ++ (inner ++ more))) := h
  have hopen := result_symbol hat hgap ⟨'<', rfl, rfl⟩
  have hclose : (symbol ['>'] t run.last.taken).result
      = .ok (some (.symbol (.token run.last.taken gap' ['>']))) :=
    result_symbol hclosing hgap' ⟨'>', rfl, rfl⟩
  have hitems : run.items ≠ [] := by
    intro hnil
    rw [hnil] at htrees
    exact hne (Option.some.inj htrees).symm
  have hlist : (Recognizer.arguments argument t q).result
      = (Extent.ofRange t (q + gap.size) (run.last.taken + gap'.size + 1)
          ⟨q, run.last.taken + gap'.size + 1⟩).result.map
            fun x => some (.list x run.items run.trailing) :=
    result_arguments hopen hrun hitems hclose
  have hsize : run.last.taken + gap'.size + 1 = q + gap.size + Text.size ('<' :: inner) := by
    rw [hstop, Nat.add_assoc _ 1]
    rfl
  have hrange : (Extent.ofRange t (q + gap.size) (q + gap.size + Text.size ('<' :: inner))
      ⟨q, q + gap.size + Text.size ('<' :: inner)⟩).result
        = .ok (.token q gap ('<' :: inner)) := Extent.result_ofRange_token h
  rw [hlist, hsize, hrange]
  rfl

/-- A `Layout` with arguments: `typeName` reads the name, and what `arguments` answers behind it. -/
theorem exists_found_generic {lead name gap inner : Text} {arguments : List TypeTree}
    {trailing : Bool} {argument : Recognizer} {items : List Element} (hlead : lead.Skipped)
    (hname : Token.IsDottedName name) (hgap : gap.Skipped)
    (h : t.from? pos = some ((lead ++ (name ++ (gap ++ '<' :: inner))) ++ more))
    (harguments : (Recognizer.arguments argument t (pos + lead.size + name.size)).result
      = .ok (some (.list (.token (pos + lead.size + name.size) gap ('<' :: inner)) items trailing)))
    (htrees : Element.typeTrees? t items = some arguments) :
    ∃ e, (typeName dottedWord argument t pos).result = .ok (some e) ∧
      Found t pos (.generic name arguments trailing) (lead ++ (name ++ (gap ++ '<' :: inner))) e := by
  have hname' : t.from? pos = some (lead ++ (name ++ (gap ++ '<' :: (inner ++ more)))) := by
    rw [h]
    simp
  have hends : Token.EndsDottedName (gap ++ '<' :: (inner ++ more)) := by
    apply Token.endsDottedName_of_dropWhile
    have hnext : ∀ c, ('<' :: (inner ++ more)).head? = some c → isSkipped c = false := by
      rintro c ⟨⟩
      rfl
    rw [(takeWhile_isSkipped hgap hnext).2]
    rintro c ⟨⟩
    exact ⟨rfl, by decide⟩
  have hword := result_dottedWord hname' hlead.isWhiteSpace hname hends
  -- the whole ends where its arguments end
  have hsize : pos + lead.size + name.size + gap.size + Text.size ('<' :: inner)
      = pos + lead.size + Text.size (name ++ (gap ++ '<' :: inner)) := by
    rw [Text.size_append, Text.size_append]
    omega
  have hwhole : (Extent.ofRange t (pos + lead.size)
      (pos + lead.size + name.size + gap.size + Text.size ('<' :: inner))
      ⟨pos, pos + lead.size + name.size + gap.size + Text.size ('<' :: inner)⟩).result
        = .ok (.token pos lead (name ++ (gap ++ '<' :: inner))) := by
    rw [hsize]
    apply Extent.result_ofRange_token
    rw [h, List.append_assoc]
  have hspan : (Extent.token pos lead (name ++ (gap ++ '<' :: inner))).span
      = ⟨pos, pos + lead.size + name.size + gap.size + Text.size ('<' :: inner)⟩ := by
    rw [hsize]
    rfl
  have hgeneric : (Element.ofGeneric t (.token pos lead name)
      (.token (pos + lead.size + name.size) gap ('<' :: inner)) items trailing
      (Extent.token pos lead (name ++ (gap ++ '<' :: inner))).span).result
        = .ok (.genericName (.token pos lead (name ++ (gap ++ '<' :: inner))) (.token pos lead name)
            (.token (pos + lead.size + name.size) gap ('<' :: inner)) items trailing) := by
    rw [hspan]
    exact Traced.result_bind_eq_ok_iff.mpr ⟨_, hwhole, rfl⟩
  refine ⟨.genericName (.token pos lead (name ++ (gap ++ '<' :: inner))) (.token pos lead name)
    (.token (pos + lead.size + name.size) gap ('<' :: inner)) items trailing, ?_, ?_, ?_⟩
  · rw [result_typeName_generic hword harguments hwhole, hgeneric]
    rfl
  · rw [Element.typeTree?, Extent.content?_token hname', htrees]
    rfl
  · rw [(takeWhile_lead hlead hname _).1, (takeWhile_lead hlead hname _).2]
    rfl

/-! ## Every layout -/

theorem size_comma (s : Text) : Text.size (',' :: s) = s.size + 1 :=
  Nat.add_comm 1 _

theorem size_bracket (s : Text) :
    Text.size ('<' :: s) = s.size + 1 ∧ Text.size ('>' :: s) = s.size + 1 :=
  ⟨Nat.add_comm 1 _, Nat.add_comm 1 _⟩

section

variable {resolve : Slot → Rule.Target} {own : Slot}

/-- One step of `Rule.through` at the slot of a type name whose arguments come from the slot itself. -/
theorem through_own (hown : resolve own = .rule (.typeName own .dottedWord)) (depth : Nat) :
    Rule.through resolve (depth + 1) own
      = typeName dottedWord (Rule.through resolve depth own) := by
  rw [Rule.through, hown]
  show Rule.recognizer (Rule.through resolve depth) (.typeName own .dottedWord) = _
  rw [Rule.recognizer, Rule.recognizer]

mutual

/-- Every `Layout` of a tree is read as this tree, where the slot may be followed often enough. By
    recursion on the `Layout`, mutually with `exists_readUp_of_layout`; each level uses up a bracket, and
    so the size of the text bounds the depth. -/
theorem exists_found_of_layout (hown : resolve own = .rule (.typeName own .dottedWord))
    {tree : TypeTree} {s : Text} :
    Layout tree s → ∀ (depth pos : Nat) (more : Text), s.size < depth →
      t.from? pos = some (s ++ more) → (tree.isPlain = true → more.ClosesArgument) →
      ∃ e, (typeName dottedWord (Rule.through resolve depth own) t pos).result = .ok (some e) ∧
        Found t pos tree s e
  | .plain hlead hname, _, _, _, _, h, hmore => exists_found_plain hlead hname h (hmore rfl) _
  | @Layout.generic lead name gap inner _ _ hlead hname hgap harguments, depth + 1, pos, more,
      hdepth, h, _ => by
      simp only [Text.size_append, size_bracket] at hdepth
      have hsplit : t.from? pos = some (lead ++ (name ++ (gap ++ '<' :: (inner ++ more)))) := by
        rw [h]
        simp
      have hat : t.from? (pos + lead.size + name.size) = some (gap ++ '<' :: (inner ++ more)) :=
        Text.from?_add_size (Text.from?_add_size hsplit)
      have hbracket : t.from? (pos + lead.size + name.size + gap.size)
          = some (['<'] ++ (inner ++ more)) := Text.from?_add_size hat
      have hinner : t.from? (pos + lead.size + name.size + gap.size + 1) = some (inner ++ more) :=
        Text.from?_add_size hbracket
      have hbound : inner.size < itemBound t (pos + lead.size + name.size) := by
        rw [itemBound, Text.ahead_of_from? hat]
        simp only [Text.size_append, size_bracket]
        omega
      obtain ⟨run, hrun, hread⟩ := exists_readUp_of_layout hown harguments depth _ more
        (.start (pos + lead.size + name.size + gap.size + 1)) (by omega) hbound hinner
      obtain ⟨items, hitems, htrees⟩ :=
        result_arguments_of_readUp hgap hat harguments.ne_nil hrun hread
      exact exists_found_generic hlead hname hgap h hitems htrees

/-- Every `ArgumentsLayout` is `ReadUp` to the closing bracket. -/
theorem exists_readUp_of_layout (hown : resolve own = .rule (.typeName own .dottedWord))
    {arguments : List TypeTree} {trailing : Bool} {inner : Text} :
    ArgumentsLayout arguments trailing inner →
      ∀ (depth bound : Nat) (more : Text) (run : ItemRun), inner.size ≤ depth → inner.size < bound →
      t.from? run.last.taken = some (inner ++ more) →
      ∃ run', (runItems t (Rule.through resolve (depth + 1) own) (symbol [',']) bound run).result
          = .ok run' ∧
        ReadUp t (run.last.taken + inner.size) more arguments trailing run.items run'
  | @ArgumentsLayout.last tree s gap htree hgap, depth, bound + 1, more, run, hdepth, _, h => by
      simp only [Text.size_append, size_bracket, Text.size_nil] at hdepth ⊢
      have h : t.from? run.last.taken = some (s ++ (gap ++ '>' :: more)) := by
        rw [h]
        simp
      obtain ⟨e, hitem, hfound⟩ := exists_found_of_layout hown htree depth _ _ (by omega) h
        fun _ => Text.closesArgument_append hgap (.inr rfl)
      rw [through_own hown]
      exact exists_readUp_last hgap h hitem hfound bound
  | @ArgumentsLayout.trailing tree s gap gap' htree hgap hgap', depth, bound, more, run, hdepth,
      hbound, h => by
      simp only [Text.size_append, size_comma, size_bracket, Text.size_nil] at hdepth hbound ⊢
      have h : t.from? run.last.taken = some (s ++ (gap ++ ',' :: (gap' ++ '>' :: more))) := by
        rw [h]
        simp
      obtain ⟨e, hitem, hfound⟩ := exists_found_of_layout hown htree depth _ _ (by omega) h
        fun _ => Text.closesArgument_append hgap (.inl rfl)
      rw [through_own hown]
      exact exists_readUp_trailing hgap hgap' h hitem hfound (by omega)
  | @ArgumentsLayout.next tree others trailing s gap inner htree hgap hothers, depth, bound + 1, more,
      run, hdepth, hbound, h => by
      simp only [Text.size_append, size_comma] at hdepth hbound ⊢
      have h : t.from? run.last.taken = some (s ++ (gap ++ ',' :: (inner ++ more))) := by
        rw [h]
        simp
      obtain ⟨e, hitem, hfound⟩ := exists_found_of_layout hown htree depth _ _ (by omega) h
        fun _ => Text.closesArgument_append hgap (.inl rfl)
      rw [← through_own hown] at hitem
      obtain ⟨run', hitems, -, htaken, hrest, hrun⟩ :=
        result_runItems_comma hgap h hitem hfound bound
      obtain ⟨last, hlast, hread⟩ := exists_readUp_of_layout hown hothers depth bound more run'
        (by omega) (by omega) hrest
      rw [hitems] at hread
      have hstop : run'.last.taken + inner.size
          = run.last.taken + (s.size + (gap.size + (inner.size + 1))) := by omega
      exact ⟨last, hrun.trans hlast, (hstop ▸ hread).cons hfound.tree_eq⟩

end

end

end TypeTree

end Graft
