import Graft.Proofs.Grammar.Shared
import Graft.Proofs.Recognizer.SpelledOut
import Graft.Proofs.Recognizer.Spelling
import Graft.Proofs.Rule

/-!
# `Graft.Proofs.TypeName.Print` — printing a type name gives back what was read

White space aside, the content of a type name is the type name written out again without any
(`Grammar.printed_typeName`), whatever the text looks like that it was read from.

Nothing is known here of the text but what was answered. The facts are therefore said of two positions
and the characters other than white space between them (`Text.Shows`), and these are put together token
by token, along the loop that reads the arguments.
-/

namespace Graft

/-! ## Writing type names -/

namespace TypeTree

/-- Texts with commas between them, and perhaps one more behind the last. -/
def listing (texts : List Text) (trailing : Bool) : Text :=
  [','].intercalate texts ++ if trailing then [','] else []

mutual

/-- A type name written without white space. -/
def rendering : TypeTree → Text
  | plain name => name
  | generic name arguments trailing =>
      name ++ '<' :: (listing (renderings arguments) trailing ++ ['>'])

/-- Type names written without white space. -/
def renderings : List TypeTree → List Text
  | [] => []
  | tree :: others => rendering tree :: renderings others

end

theorem renderings_append (trees others : List TypeTree) :
    renderings (trees ++ others) = renderings trees ++ renderings others := by
  induction trees with
  | nil => rfl
  | cons tree trees ih => rw [List.cons_append, renderings, ih, renderings, List.cons_append]

/-- `listing` grows at its end by a text, behind a comma unless it is the first. -/
theorem listing_concat (texts : List Text) (last : Text) :
    listing (texts ++ [last]) false = listing texts (!texts.isEmpty) ++ last := by
  induction texts with
  | nil => simp [listing]
  | cons s texts ih =>
      have hfront : listing (s :: (texts ++ [last])) false
          = s ++ [','] ++ listing (texts ++ [last]) false := by
        cases texts <;> simp [listing, List.intercalate]
      have hfront' : listing (s :: texts) true = s ++ [','] ++ listing texts (!texts.isEmpty) := by
        cases texts <;> simp [listing, List.intercalate]
      calc
        listing (s :: texts ++ [last]) false = s ++ [','] ++ listing (texts ++ [last]) false := hfront
        _ = s ++ [','] ++ listing texts (!texts.isEmpty) ++ last := by
            rw [ih, ← List.append_assoc]
        _ = listing (s :: texts) true ++ last := by rw [hfront']

theorem listing_trailing (texts : List Text) : listing texts true = listing texts false ++ [','] := by
  simp [listing]

end TypeTree

/-! ## Characters other than white space -/

namespace Text

/-- A text without its white space. -/
def visible (s : Text) : Text :=
  s.filter fun c => !Unicode.isWhiteSpace c

@[simp] theorem visible_append (s s' : Text) : visible (s ++ s') = visible s ++ visible s' :=
  List.filter_append ..

theorem visible_of_isWhiteSpace {s : Text} (h : ∀ c ∈ s, Unicode.isWhiteSpace c = true) :
    s.visible = [] := by
  refine List.filter_eq_nil_iff.mpr fun c hc => ?_
  simp [h c hc]

theorem visible_eq_self {s : Text} (h : ∀ c ∈ s, Unicode.isWhiteSpace c = false) : s.visible = s := by
  refine List.filter_eq_self.mpr fun c hc => ?_
  simp [h c hc]

/-- Between two positions of a text stands `v`, apart from white space. -/
def Shows (t : Text) (a b : Nat) (v : Text) : Prop :=
  ∃ s, t.slice? a b = some s ∧ s.visible = v

variable {t v w : Text} {a b c : Nat}

theorem shows_nil (h : t.isBoundary a = true) : t.Shows a a [] :=
  ⟨[], slice?_self h, rfl⟩

/-- What a range `Shows` is put together from what its parts show. -/
theorem Shows.append (h : t.Shows a b v) (h' : t.Shows b c w) : t.Shows a c (v ++ w) := by
  obtain ⟨s, hs, rfl⟩ := h
  obtain ⟨s', hs', rfl⟩ := h'
  exact ⟨s ++ s', slice?_append hs hs', visible_append s s'⟩

/-- White space in front is not seen by `Shows`. -/
theorem Shows.behind (h : t.Shows b c w) (hblank : t.Shows a b []) : t.Shows a c w :=
  hblank.append h

end Text

/-- Between the ends of a token its content `Shows`. -/
theorem Extent.shows_token {t skipped content more : Text} {pos : Nat}
    (h : t.from? pos = some (skipped ++ (content ++ more)))
    (hskipped : ∀ c ∈ skipped, Unicode.isWhiteSpace c = true)
    (hcontent : ∀ c ∈ content, Unicode.isWhiteSpace c = false) :
    t.Shows pos (pos + skipped.size) [] ∧
      t.Shows (pos + skipped.size) (pos + skipped.size + content.size) content := by
  obtain ⟨before, rfl, rfl⟩ := Text.exists_of_from? h
  constructor
  · refine ⟨skipped, ?_, Text.visible_of_isWhiteSpace hskipped⟩
    exact Text.slice?_eq_some_iff.mpr ⟨before, content ++ more, rfl, rfl, rfl⟩
  · refine ⟨content, ?_, Text.visible_eq_self hcontent⟩
    exact Text.slice?_eq_some_iff.mpr ⟨before ++ skipped, more, by simp, by simp, rfl⟩

theorem Token.IsIdentifier.visible {s : Text} (h : IsIdentifier s) :
    ∀ c ∈ s, Unicode.isWhiteSpace c = false := by
  obtain ⟨first, others, rfl, hfirst, hothers⟩ := h
  refine List.forall_mem_cons.mpr ⟨not_isWhiteSpace_of_wordStart hfirst, fun c hc => ?_⟩
  by_cases hspace : Unicode.isWhiteSpace c = true
  · have hword := hothers c hc
    rw [Unicode.not_isWordChar_of_isWhiteSpace hspace] at hword
    cases hword
  · simpa using hspace

theorem Token.IsDottedName.visible {s : Text} (h : IsDottedName s) :
    ∀ c ∈ s, Unicode.isWhiteSpace c = false := by
  obtain ⟨first, others, hfirst, hothers, rfl⟩ := h
  intro c hc
  rcases List.mem_append.mp hc with hc | hc
  · exact hfirst.visible c hc
  · obtain ⟨piece, hpiece, hmem⟩ := List.mem_flatten.mp hc
    obtain ⟨name, hname, rfl⟩ := List.mem_map.mp hpiece
    rcases List.mem_cons.mp hmem with rfl | hmem
    · decide
    · exact (hothers name hname).visible c hmem

/-! ## Type names in a type name -/

namespace Element

/-- A type name holds itself, its arguments, and what these hold. -/
inductive Holds : Element → Element → Prop
  | refl (e : Element) : Holds e e
  | argument {x name arguments : Extent} {items : List Element} {trailing : Bool} {e inner : Element}
      (he : e ∈ items) (h : Holds e inner) :
      Holds (.genericName x name arguments items trailing) inner

/-- The content of a type name is, apart from white space, the type name written out, and all items of
    its list are arguments. -/
structure Printed (t : Text) (e : Element) : Prop where
  content : ∃ tree, e.typeTree? t = some tree ∧
    (e.content? t).map Text.visible = some tree.rendering
  arguments : ∀ x name arguments items trailing, e = .genericName x name arguments items trailing →
    items ≠ [] ∧ e.arguments = items

/-- A type name that was read from a position on: nothing but white space stands in front of it, nothing
    was taken up behind it, and all that it holds is printed. -/
structure ReadBack (t : Text) (pos : Nat) (e : Element) : Prop where
  blank : t.Shows pos e.start []
  stop_eq : e.stop = e.span.stop
  printed : ∀ inner, e.Holds inner → inner.Printed t

variable {t : Text} {pos : Nat} {e : Element}

theorem isTypeName_of_typeTree? {tree : TypeTree} (h : e.typeTree? t = some tree) :
    e.isTypeName = true := by
  cases e <;> first | rfl | cases h

theorem typeTrees?_concat {items : List Element} {trees : List TypeTree} {tree : TypeTree}
    (h : typeTrees? t items = some trees) (he : e.typeTree? t = some tree) :
    typeTrees? t (items ++ [e]) = some (trees ++ [tree]) := by
  induction items generalizing trees with
  | nil =>
      obtain rfl := Option.some.inj h
      simp [typeTrees?, he]
  | cons first items ih =>
      rw [typeTrees?] at h
      obtain ⟨head, hhead, h⟩ := Option.bind_eq_some_iff.mp h
      obtain ⟨tail, htail, rfl⟩ := Option.map_eq_some_iff.mp h
      simp [typeTrees?, hhead, ih htail]

theorem isEmpty_renderings {items : List Element} {trees : List TypeTree}
    (h : typeTrees? t items = some trees) : (TypeTree.renderings trees).isEmpty = items.isEmpty := by
  cases items with
  | nil =>
      obtain rfl := Option.some.inj h
      rfl
  | cons first items =>
      rw [typeTrees?] at h
      obtain ⟨head, -, h⟩ := Option.bind_eq_some_iff.mp h
      obtain ⟨tail, -, rfl⟩ := Option.map_eq_some_iff.mp h
      rfl

/-- What was taken up for a `ReadBack` element `Shows` the rendering of its tree. -/
theorem ReadBack.shows (h : e.ReadBack t pos) :
    ∃ tree, e.typeTree? t = some tree ∧ t.Shows pos e.span.stop tree.rendering := by
  obtain ⟨tree, htree, hcontent⟩ := (h.printed e (.refl e)).content
  obtain ⟨s, hs, hvisible⟩ := Option.map_eq_some_iff.mp hcontent
  obtain ⟨b, hb, hslice⟩ := Option.bind_eq_some_iff.mp hs
  have hstart : e.start = b.start := by rw [start, Extent.start, hb]; rfl
  have hstop : e.stop = b.stop := by rw [stop, Extent.stop, hb]; rfl
  have hshown : t.Shows e.start e.stop tree.rendering := by
    rw [hstart, hstop]
    exact ⟨s, hslice, hvisible⟩
  exact ⟨tree, htree, h.stop_eq ▸ hshown.behind h.blank⟩

end Element

namespace Recognizer

open Element (typeTrees?)

variable {t : Text} {pos : Nat} {argument : Recognizer} {e : Element}

/-- A recogniser of type names that are printed as they were read. -/
def PrintsBack (t : Text) (p : Recognizer) : Prop :=
  ∀ pos e, t.isBoundary pos = true → (p t pos).result = .ok (some e) → e.ReadBack t pos

/-- A sign shows itself, and nothing in front. -/
theorem shows_symbol {c : Char} (hc : Unicode.isWhiteSpace c = false)
    (h : (symbol [c] t pos).result = .ok (some e)) :
    t.Shows pos e.start [] ∧ t.Shows e.start e.span.stop [c] := by
  obtain ⟨skipped, more, hfrom, hskipped, rfl⟩ := exists_of_result_symbol h
  have hblank : Text.Skipped skipped := hskipped
  exact Extent.shows_token hfrom hblank.isWhiteSpace (by simpa using hc)

/-! ## Arguments -/

namespace ItemRun

variable {begin : Nat} {run : ItemRun}

/-- The items that were read, as type names, and what was taken up for them and their commas. -/
structure Shown (t : Text) (begin : Nat) (run : ItemRun) : Prop where
  text : ∃ trees, typeTrees? t run.items = some trees ∧
    t.Shows begin run.last.taken (TypeTree.listing (TypeTree.renderings trees) run.trailing)
  printed : ∀ e ∈ run.items, ∀ inner, e.Holds inner → inner.Printed t

/-- The invariant of the loop over arguments: `Shown` with one item more where one is due. -/
theorem Shown.addItem {separator : Recognizer} (h : run.Shown t begin)
    (hrun : run.AtItem t argument separator begin) (he : e.ReadBack t run.last.taken) :
    (run.addItem e).Shown t begin := by
  obtain ⟨trees, htrees, hshown⟩ := h.text
  obtain ⟨tree, htree, hitem⟩ := he.shows
  refine ⟨⟨trees ++ [tree], Element.typeTrees?_concat htrees htree, ?_⟩, ?_⟩
  · have htrailing : run.trailing = !(TypeTree.renderings trees).isEmpty := by
      rw [hrun.trailing_eq, Element.isEmpty_renderings htrees]
      cases run.items <;> rfl
    rw [TypeTree.renderings_append]
    show t.Shows begin e.span.stop
      (TypeTree.listing (TypeTree.renderings trees ++ [tree.rendering]) false)
    rw [TypeTree.listing_concat, ← htrailing]
    exact hshown.append hitem
  · intro item hmem
    rcases List.mem_append.mp hmem with hmem | hmem
    · exact h.printed item hmem
    · obtain rfl := List.mem_singleton.mp hmem
      exact he.printed

/-- And with a comma behind an item. -/
theorem Shown.addSeparator {s : Element} (h : (run.addItem e).Shown t begin)
    (hs : t.Shows e.span.stop s.span.stop [',']) :
    ((run.addItem e).addSeparator s).Shown t begin := by
  obtain ⟨trees, htrees, hshown⟩ := h.text
  refine ⟨⟨trees, htrees, ?_⟩, h.printed⟩
  show t.Shows begin s.span.stop (TypeTree.listing (TypeTree.renderings trees) true)
  rw [TypeTree.listing_trailing]
  exact hshown.append hs

/-- The run over the arguments shows them with commas in between. By induction on how it came there. -/
theorem AtItem.shown (hargument : PrintsBack t argument) (hsound : Sound argument)
    (hbegin : t.isBoundary begin = true) (h : run.AtItem t argument (symbol [',']) begin) :
    run.Shown t begin := by
  induction h with
  | start =>
      refine ⟨⟨[], rfl, Text.shows_nil hbegin⟩, ?_⟩
      intro e he
      cases he
  | next h he hs _ ih =>
      have hcut := (h.lined hsound (sound_symbol _) hbegin).1.last.taken_boundary
      obtain ⟨hblank, hcomma⟩ := shows_symbol rfl hs
      exact (ih.addItem h (hargument _ _ hcut he)).addSeparator (hcomma.behind hblank)

/-- So when `runItems` has read the arguments, what was taken up for them `Shows` their `listing`. -/
theorem AtEnd.shown (hargument : PrintsBack t argument) (hsound : Sound argument)
    (hbegin : t.isBoundary begin = true) (h : run.AtEnd t argument (symbol [',']) begin) :
    run.Shown t begin := by
  cases h with
  | empty => exact AtItem.start.shown hargument hsound hbegin
  | item h he =>
      have hcut := (h.lined hsound (sound_symbol _) hbegin).1.last.taken_boundary
      exact (h.shown hargument hsound hbegin).addItem h (hargument _ _ hcut he)
  | separator h he hs =>
      have hcut := (h.lined hsound (sound_symbol _) hbegin).1.last.taken_boundary
      obtain ⟨hblank, hcomma⟩ := shows_symbol rfl hs
      exact ((h.shown hargument hsound hbegin).addItem h (hargument _ _ hcut he)).addSeparator
        (hcomma.behind hblank)

end ItemRun

/-- The inversion of `arguments`: an opening bracket, items, and a closing one. -/
theorem exists_of_arguments (h : (arguments argument t pos).result = .ok (some e)) :
    ∃ (opening : Element) (run : ItemRun) (closing : Element) (x : Extent),
      (symbol ['<'] t pos).result = .ok (some opening) ∧
      run.AtEnd t argument (symbol [',']) opening.span.stop ∧ run.items ≠ [] ∧
      (symbol ['>'] t run.last.taken).result = .ok (some closing) ∧
      (Extent.ofRange t opening.start closing.stop ⟨pos, closing.span.stop⟩).result = .ok x ∧
      e = .list x run.items run.trailing := by
  obtain ⟨before, run, after, x, hreading, rfl⟩ := exists_reading_of_list h
  -- both brackets are there, each of them a sequence of one
  obtain ⟨opening, _, rfl, hopening, hrest⟩ := exists_of_runAll_cons hreading.opening
  obtain ⟨rfl, -⟩ := Prod.mk.inj (Option.some.inj (Except.ok.inj hrest))
  obtain ⟨closing, _, rfl, hclosing, hrest⟩ := exists_of_runAll_cons hreading.closing
  obtain ⟨rfl, -⟩ := Prod.mk.inj (Option.some.inj (Except.ok.inj hrest))
  obtain ⟨start, stop, hstart, rfl, hx⟩ := hreading.extent
  obtain rfl := Option.some.inj hstart
  refine ⟨opening, run, closing, x, hopening, hreading.items, ?_, hclosing, hx, rfl⟩
  intro hnil
  -- brackets alone make a list only where it may be empty
  have hmay := hreading.bracketed hnil
  cases hmay

/-! ## Type names -/

/-- What a sequence answers is made of what its parts read one after the other. -/
theorem exists_of_join {parts : List Recognizer} (h : (join parts t pos).result = .ok (some e)) :
    ∃ items stop x, (runAll t parts pos).result = .ok (some (items, stop)) ∧
      (Extent.ofItems t items ⟨pos, stop⟩).result = .ok x ∧ e = .join x items := by
  unfold join at h
  split at h
  · cases h
  obtain ⟨run, hrun, h⟩ := Traced.result_bind_eq_ok_iff.mp h
  rcases run with _ | ⟨items, stop⟩
  · cases h
  obtain ⟨j, hj, h⟩ := Traced.result_bind_eq_ok_iff.mp h
  obtain rfl := Option.some.inj (Except.ok.inj h)
  obtain ⟨x, hx, rfl⟩ := exists_of_ofJoin hj
  exact ⟨items, stop, x, hrun, hx, rfl⟩

/-- The inversion of `typeName`: a name with its arguments, or a name alone, and then `asTypeName`. -/
theorem exists_of_typeName {name : Recognizer}
    (h : (typeName name argument t pos).result = .ok (some e)) :
    ∃ j, ((join [name, arguments argument] t pos).result = .ok (some j) ∨
        (name t pos).result = .ok (some j)) ∧ (asTypeName t j).result = .ok e := by
  obtain ⟨found, hfound, h⟩ := Traced.result_bind_eq_ok_iff.mp h
  cases found with
  | none => cases h
  | some j =>
      obtain ⟨e', he', h⟩ := Traced.result_bind_eq_ok_iff.mp h
      obtain rfl := Option.some.inj (Except.ok.inj h)
      obtain ⟨p, hp, hread⟩ := exists_of_choice hfound
      rcases hp with _ | ⟨_, _ | ⟨_, ⟨⟩⟩⟩
      · exact ⟨j, .inl hread, he'⟩
      · exact ⟨j, .inr hread, he'⟩

/-- A name without arguments is `ReadBack`. -/
theorem readBack_plain {j : Element} (hname : (dottedWord t pos).result = .ok (some j))
    (h : (asTypeName t j).result = .ok e) : e.ReadBack t pos := by
  obtain ⟨lead, name, more, hfrom, hlead, hdotted, rfl⟩ := exists_of_result_dottedWord hname
  obtain ⟨hblank, -⟩ := Extent.shows_token hfrom hlead hdotted.visible
  obtain ⟨x, hx, h⟩ := Traced.result_bind_eq_ok_iff.mp h
  obtain rfl := Except.ok.inj h
  have hx' : (Extent.ofRange t (pos + lead.size) (pos + lead.size + name.size)
      ⟨pos, pos + lead.size + name.size⟩).result = .ok x := hx
  obtain rfl := Except.ok.inj ((Extent.result_ofRange_token hfrom).symm.trans hx')
  have hcontent := Extent.content?_token hfrom
  refine ⟨hblank, rfl, ?_⟩
  intro inner hinner
  obtain rfl : inner = .typeName (.token pos lead name) (.token pos lead name) := by
    cases hinner with
    | refl => rfl
  refine ⟨⟨.plain name, ?_, ?_⟩, ?_⟩
  · rw [Element.typeTree?, hcontent]
    rfl
  · show ((Extent.token pos lead name).content? t).map Text.visible = some name
    rw [hcontent, Option.map_some, Text.visible_eq_self hdotted.visible]
  · intro x name arguments items trailing heq
    cases heq

/-- From the name on to the closing bracket there `Shows` the type name written out. -/
theorem shows_generic {opening closing : Element} {run : ItemRun} {start q : Nat} {name : Text}
    (hargument : PrintsBack t argument) (hsound : Sound argument) (hq : t.isBoundary q = true)
    (hname : t.Shows start q name) (hopening : (symbol ['<'] t q).result = .ok (some opening))
    (hend : run.AtEnd t argument (symbol [',']) opening.span.stop)
    (hclosing : (symbol ['>'] t run.last.taken).result = .ok (some closing)) :
    run.Shown t opening.span.stop ∧ ∃ trees, typeTrees? t run.items = some trees ∧
      t.Shows start closing.span.stop (TypeTree.generic name trees run.trailing).rendering := by
  have hbegin := (sound_of_boundary (sound_symbol _ t q _ hopening) hq).2.placed.span_stop_boundary
  obtain ⟨hgap, hbracket⟩ := shows_symbol rfl hopening
  obtain ⟨hgap', hbracket'⟩ := shows_symbol rfl hclosing
  have hshown := hend.shown hargument hsound hbegin
  obtain ⟨trees, htrees, hlist⟩ := hshown.text
  refine ⟨hshown, trees, htrees, ?_⟩
  rw [TypeTree.rendering]
  exact hname.append ((hbracket.behind hgap).append (hlist.append (hbracket'.behind hgap')))

/-- A name with arguments is `ReadBack`, if its arguments are. -/
theorem readBack_generic {j : Element} (hargument : PrintsBack t argument) (hsound : Sound argument)
    (hpos : t.isBoundary pos = true)
    (hjoin : (join [dottedWord, arguments argument] t pos).result = .ok (some j))
    (h : (asTypeName t j).result = .ok e) (he : e.Sound t) : e.ReadBack t pos := by
  have hparts : ∀ p ∈ [dottedWord, arguments argument], Sound p := by
    rintro p (_ | ⟨_, _ | ⟨_, ⟨⟩⟩⟩)
    · exact sound_ofProgram _ (fun _ => rfl) (fun _ => rfl)
    · exact sound_arguments hsound
  have hj := (sound_of_boundary (sound_join hparts t pos _ hjoin) hpos).2
  -- the name, and behind it the list of arguments
  obtain ⟨parts, stop, x, hrun, hx, rfl⟩ := exists_of_join hjoin
  obtain ⟨first, _, rfl, hname, hrun⟩ := exists_of_runAll_cons hrun
  obtain ⟨list, _, rfl, hlist, hrun⟩ := exists_of_runAll_cons hrun
  obtain ⟨rfl, rfl⟩ := Prod.mk.inj (Option.some.inj (Except.ok.inj hrun))
  obtain ⟨lead, name, more, hfrom, hlead, hdotted, rfl⟩ := exists_of_result_dottedWord hname
  obtain ⟨opening, run, closing, y, hopening, hend, hitems, hclosing, hy, rfl⟩ :=
    exists_of_arguments hlist
  obtain ⟨z, hz, h⟩ := Traced.result_bind_eq_ok_iff.mp h
  obtain rfl := Except.ok.inj h
  -- where they lie
  have hlistSound : (Element.list y run.items run.trailing).Sound t :=
    hj.parts _ (by simp [Element.parts])
  obtain rfl := Extent.eq_of_ofRange_of_isValid hx hj.placed.valid
  obtain rfl := Extent.eq_of_ofRange_of_isValid hy hlistSound.placed.valid
  obtain rfl := Extent.eq_of_ofRange_of_isValid hz he.placed.valid
  obtain ⟨hblank, hshows⟩ := Extent.shows_token hfrom hlead hdotted.visible
  have hq : t.isBoundary (pos + lead.size + name.size) = true :=
    Text.isBoundary_of_from? (Text.from?_add_size (Text.from?_add_size hfrom))
  obtain ⟨hshown, trees, htrees, hwhole⟩ :=
    shows_generic hargument hsound hq hshows hopening hend hclosing
  refine ⟨hblank, rfl, ?_⟩
  intro inner hinner
  cases hinner with
  | argument hitem hinner => exact hshown.printed _ hitem inner hinner
  | refl =>
      refine ⟨⟨.generic name trees run.trailing, ?_, ?_⟩, ?_⟩
      · rw [Element.typeTree?, Extent.content?_token hfrom, htrees]
        rfl
      · obtain ⟨s, hs, hvisible⟩ := hwhole
        show (t.slice? (pos + lead.size) closing.span.stop).map Text.visible = _
        rw [hs, Option.map_some, hvisible]
      · -- an item that stands for a type name is not dropped from the arguments
        rintro x name arguments items trailing ⟨⟩
        refine ⟨hitems, List.filter_eq_self.mpr fun item hitem => ?_⟩
        obtain ⟨tree, htree, -⟩ := (hshown.printed item hitem item (.refl item)).content
        exact Element.isTypeName_of_typeTree? htree

/-- `PrintsBack` goes through `typeName`, from the arguments to the whole. -/
theorem printsBack_typeName (hargument : PrintsBack t argument) (hsound : Sound argument) :
    PrintsBack t (typeName dottedWord argument) := by
  intro pos e hpos h
  have hname : Sound dottedWord := sound_ofProgram _ (fun _ => rfl) (fun _ => rfl)
  have he := (sound_of_boundary (sound_typeName hname hsound t pos _ h) hpos).2
  obtain ⟨j, hread, has⟩ := exists_of_typeName h
  rcases hread with hjoin | hname
  · exact readBack_generic hargument hsound hpos hjoin has he
  · exact readBack_plain hname has

/-- So it holds of the slot of a type name, by induction on how often the slot may be followed. -/
theorem printsBack_through {resolve : Slot → Rule.Target} {own : Slot}
    (hown : resolve own = .rule (.typeName own .dottedWord)) (depth : Nat) :
    PrintsBack t (Rule.through resolve depth own) := by
  induction depth with
  | zero =>
      intro pos e _ h
      cases h
  | succ depth ih =>
      rw [TypeTree.through_own hown]
      exact printsBack_typeName ih (Rule.sound_through resolve depth own)

end Recognizer

namespace Grammar

/-- **Type names are printed back.** Whatever shared rules a grammar was asked for before, in every text
    and from every cut of it. For the type name that is read, and for each argument in it at any depth:
    its content without white space is the `rendering` of its tree, that is, its name or, with arguments,
    the name, an opening bracket, the `listing` of the arguments with one more comma just if there is one
    behind the last of them, and a closing bracket. There is at least one argument then, and every item in
    the brackets is one. -/
theorem printed_typeName (names : List Shared) {id : NodeId} {g : Grammar} {r : Rule} {t : Text}
    {pos : Nat} {e : Element} (hshared : (sharing names).sharedRule .typeName = (id, g))
    (hr : g.rule? id = some r) (hpos : t.isBoundary pos = true)
    (h : (g.recognizer r t pos).result = .ok (some e)) : ∀ inner, e.Holds inner →
      (∃ tree, inner.typeTree? t = some tree ∧
        (inner.content? t).map Text.visible = some tree.rendering) ∧
      ∀ x name arguments items trailing, inner = .genericName x name arguments items trailing →
        items ≠ [] ∧ inner.arguments = items := by
  have hwired := wiredTypeName_sharedRule (typeNameWired_sharing names)
  rw [hshared] at hwired
  obtain ⟨slot, hrule, htarget⟩ := hwired
  obtain rfl := Option.some.inj (hr.symm.trans hrule)
  rw [recognizer, Rule.parse, Rule.recognizer, Rule.recognizer] at h
  have hback := Recognizer.printsBack_typeName (Recognizer.printsBack_through htarget _)
    (Rule.sound_through _ _ _) pos e hpos h
  intro inner hinner
  obtain ⟨hcontent, harguments⟩ := hback.printed inner hinner
  exact ⟨hcontent, harguments⟩

/-- `printed_typeName` for a generic type name, with something else in front of it and behind it. -/
theorem printed_typeName_nested : ∃ id g r e,
    (sharing [.word]).sharedRule .typeName = (id, g) ∧ g.rule? id = some r ∧
      Text.isBoundary ('é' :: nestedText ++ ['y']) 2 = true ∧
      (g.recognizer r ('é' :: nestedText ++ ['y']) 2).result = .ok (some e) ∧
      (e.content? ('é' :: nestedText ++ ['y'])).map Text.visible
        = some ['M', '<', 'a', '.', 'B', ',', 'L', '<', 'x', ',', '>', '>'] ∧
      ∀ x name arguments items trailing, e = .genericName x name arguments items trailing →
        items ≠ [] ∧ e.arguments = items := by
  have hrest : Text.from? ('é' :: nestedText ++ ['y']) 2 = some (nestedText ++ ['y']) := rfl
  have hwired := wiredTypeName_sharedRule (typeNameWired_sharing [.word])
  obtain ⟨r, e, hr, he, hfound⟩ := hwired.exists_found layout_nestedTree hrest (by
    intro hplain
    cases hplain)
  obtain ⟨⟨tree, htree, hcontent⟩, harguments⟩ :=
    printed_typeName [.word] rfl hr rfl he e (.refl e)
  obtain rfl := Option.some.inj (hfound.tree_eq.symm.trans htree)
  exact ⟨_, _, r, e, rfl, hr, rfl, he, hcontent, harguments⟩

end Grammar

end Graft
