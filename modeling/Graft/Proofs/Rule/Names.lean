import Graft.Proofs.Recognizer.Longest
import Graft.Proofs.Recognizer.Spelling
import Graft.Proofs.Rule

/-!
# `Graft.Proofs.Rule.Names` — names are whole words

A name ends where its word does: no word character follows it (`Token.not_wordAfter`). In front of it
stands white space, or nothing has been passed over at all. In that case what stands in front is not
looked at, because a name is looked for in the text from a position on; it may be the first half of the
word (`Token.wordBefore_iff`).

Whatever a rule answers, each name in it, however deep, was read as a name at some position
(`Recognizer.NamesRead`). The parts of a rule hand positions on in many ways, but none of them makes up
names of its own, so that what holds of names that are read holds of all names in a tree
(`Rule.names_whole`).
-/

namespace Graft

namespace Text

/-- The character that ends at a position. -/
def charBefore? (t : Text) (p : Nat) : Option Char :=
  (t.upTo? p).bind List.getLast?

/-- The character that starts at a position. -/
def charAfter? (t : Text) (p : Nat) : Option Char :=
  (t.from? p).bind List.head?

/-- A word character ends at a position. -/
def WordBefore (t : Text) (p : Nat) : Prop :=
  ∃ c, t.charBefore? p = some c ∧ Unicode.isWordChar c = true

/-- A word character starts at a position. -/
def WordAfter (t : Text) (p : Nat) : Prop :=
  ∃ c, t.charAfter? p = some c ∧ Unicode.isWordChar c = true

theorem charBefore?_append (s more : Text) : (s ++ more).charBefore? s.size = s.getLast? := by
  simp [charBefore?]

theorem charAfter?_append (s more : Text) : (s ++ more).charAfter? s.size = more.head? := by
  simp [charAfter?]

end Text

/-! ## Names between what stands before and after them -/

namespace Token

variable {t lead name more : Text} {pos : Nat}

/-- A token that ends where `EndsIdentifier` holds is not `WordAfter`. -/
theorem not_wordAfter (h : t.from? pos = some (lead ++ (name ++ more))) (hmore : EndsIdentifier more) :
    ¬ t.WordAfter (Extent.token pos lead name).stop := by
  obtain ⟨s, rfl, rfl⟩ := Text.exists_of_from? h
  have hstop : (Extent.token s.size lead name).stop = Text.size (s ++ lead ++ name) := by
    simp [Extent.token, Extent.stop, Nat.add_assoc]
  have hsplit : s ++ (lead ++ (name ++ more)) = (s ++ lead ++ name) ++ more := by simp
  rintro ⟨c, hc, hword⟩
  rw [hstop, hsplit, Text.charAfter?_append] at hc
  have := hmore c hc
  rw [hword] at this
  cases this

/-- A token is `WordBefore` only if nothing was skipped in front of it: white space is no word
    character. -/
theorem wordBefore_iff (h : t.from? pos = some (lead ++ (name ++ more)))
    (hlead : ∀ c ∈ lead, Unicode.isWhiteSpace c = true) :
    t.WordBefore (Extent.token pos lead name).start ↔
      (Extent.token pos lead name).start = pos ∧ t.WordBefore pos := by
  have hstart : (Extent.token pos lead name).start = pos + lead.size := rfl
  rw [hstart]
  cases hlast : lead.getLast? with
  | none =>
      rw [List.getLast?_eq_none_iff.mp hlast]
      simp
  | some d =>
      -- white space has been passed over, and it is the last of it that stands in front
      have hblank := hlead d (List.mem_of_getLast? hlast)
      have hne : lead ≠ [] := by
        intro hnil
        rw [hnil] at hlast
        cases hlast
      have hsize : lead.size ≠ 0 := fun hzero => hne (Text.size_eq_zero_iff.mp hzero)
      constructor
      · rintro ⟨c, hc, hword⟩
        obtain ⟨s, rfl, rfl⟩ := Text.exists_of_from? h
        rw [← Text.size_append, ← List.append_assoc, Text.charBefore?_append, List.getLast?_append,
          hlast] at hc
        obtain rfl := Option.some.inj hc
        have hplain := Unicode.not_isWordChar_of_isWhiteSpace hblank
        rw [hword] at hplain
        cases hplain
      · rintro ⟨hsame, -⟩
        omega

end Token

/-! ## Names that were read -/

namespace Recognizer

open Token

variable {t : Text} {pos : Nat} {e : Element}

/-- The inversion of `word` and `dottedWord` together, in terms of `EndsIdentifier`. -/
theorem exists_of_result_name
    (h : (word t pos).result = .ok (some e) ∨ (dottedWord t pos).result = .ok (some e)) :
    ∃ lead name more, t.from? pos = some (lead ++ (name ++ more)) ∧
      (∀ c ∈ lead, Unicode.isWhiteSpace c = true) ∧ EndsIdentifier more ∧
      (e = .word (.token pos lead name) ∨ e = .dottedWord (.token pos lead name)) := by
  have hcut : t.isBoundary pos = true := by
    cases hb : t.isBoundary pos with
    | true => rfl
    | false =>
        -- inside a character nothing is looked for
        have hnone : t.from? pos = none := by simpa [Text.isBoundary] using hb
        have hscan (p : Regex.Program) : p.scan? t pos = none := by
          simp [Regex.Program.scan?, hnone]
        rcases h with h | h
        · rw [word, ofProgram, hscan] at h
          cases h
        · rw [dottedWord, ofProgram, hscan] at h
          cases h
  obtain ⟨rest, hrest⟩ := Option.isSome_iff_exists.mp hcut
  by_cases hstarts : StartsName (rest.dropWhile Unicode.isWhiteSpace)
  · obtain ⟨c, more, hahead, hc⟩ := hstarts
    have hstart := contains_wordStart_iff.mpr hc
    have hlead : ∀ d ∈ rest.takeWhile Unicode.isWhiteSpace, Unicode.isWhiteSpace d = true :=
      fun d hd => List.mem_takeWhile_imp hd
    have hfrom : t.from? pos = some (rest.takeWhile Unicode.isWhiteSpace ++ c :: more) := by
      rw [hrest, ← hahead, List.takeWhile_append_dropWhile]
    rcases h with h | h
    · rw [← List.takeWhile_append_dropWhile (p := Unicode.isWordChar) (l := more),
        ← List.cons_append] at hfrom
      have hword := result_word hfrom hlead (isIdentifier_takeWhile hstart more)
        (endsIdentifier_dropWhile more)
      obtain rfl := Option.some.inj (Except.ok.inj (h.symm.trans hword))
      exact ⟨_, _, _, hfrom, hlead, endsIdentifier_dropWhile more, .inl rfl⟩
    · obtain ⟨name, after, heq, hname, hafter⟩ := exists_dottedName hstart more
      rw [heq] at hfrom
      have hdotted := result_dottedWord hfrom hlead hname hafter
      obtain rfl := Option.some.inj (Except.ok.inj (h.symm.trans hdotted))
      exact ⟨_, _, _, hfrom, hlead, hafter.1, .inr rfl⟩
  · obtain ⟨hword, hdotted⟩ := result_none_of_not_startsName hrest hstarts
    rcases h with h | h
    · cases h.symm.trans hword
    · cases h.symm.trans hdotted

end Recognizer

/-! ## Names in a tree -/

/-- A name somewhere in an element: a word, or what a type name keeps of one. -/
inductive Element.NameIn (x : Extent) : Element → Prop
  | word : NameIn x (.word x)
  | dottedWord : NameIn x (.dottedWord x)
  | typeName {y : Extent} : NameIn x (.typeName y x)
  | genericName {y arguments : Extent} {items : List Element} {trailing : Bool} :
      NameIn x (.genericName y x arguments items trailing)
  | part {e p : Element} (hp : p ∈ e.parts) (h : NameIn x p) : NameIn x e

/-- An extent that was read as a name at some position. -/
def Text.NameRead (t : Text) (x : Extent) : Prop :=
  ∃ q, (Recognizer.word t q).result = .ok (some (.word x)) ∨
    (Recognizer.dottedWord t q).result = .ok (some (.dottedWord x))

/-- An element in which all names were read. -/
def Element.NamesRead (t : Text) (e : Element) : Prop :=
  ∀ x, e.NameIn x → t.NameRead x

/-- The name that an element itself is, or keeps. -/
def Element.ownName? : Element → Option Extent
  | .word x | .dottedWord x | .typeName _ x | .genericName _ x _ _ _ => some x
  | _ => none

namespace Element.NamesRead

variable {t : Text} {x y : Extent} {e : Element} {items : List Element}

/-- The introduction rule of `NamesRead`: an element's own name, and those of its parts. -/
theorem of_parts (hown : ∀ x, e.ownName? = some x → t.NameRead x)
    (hparts : ∀ p ∈ e.parts, p.NamesRead t) : e.NamesRead t := by
  intro x hx
  cases hx with
  | word => exact hown x rfl
  | dottedWord => exact hown x rfl
  | typeName => exact hown x rfl
  | genericName => exact hown x rfl
  | part hp hx => exact hparts _ hp x hx

theorem basic : (Element.basic y).NamesRead t :=
  of_parts nofun (List.forall_mem_nil _)

theorem join (h : ∀ e ∈ items, e.NamesRead t) : (Element.join y items).NamesRead t :=
  of_parts nofun h

theorem list {trailing : Bool} (h : ∀ e ∈ items, e.NamesRead t) :
    (Element.list y items trailing).NamesRead t :=
  of_parts nofun h

theorem group {slots : List (Option Element)} (h : ∀ e ∈ slots.filterMap id, e.NamesRead t) :
    (Element.group y slots).NamesRead t :=
  of_parts nofun h

/-- `asTypeName` keeps the name of the element that it was made of, and its arguments. -/
theorem asTypeName {e' : Element} (h : e.NamesRead t)
    (h' : (Recognizer.asTypeName t e).result = .ok e') : e'.NamesRead t := by
  rcases Recognizer.exists_of_asTypeName h' with ⟨name, hname, h'⟩ |
    ⟨whole, first, name, arguments, items, trailing, rfl, hname, h'⟩
  · obtain ⟨z, -, h'⟩ := Traced.result_bind_eq_ok_iff.mp h'
    obtain rfl := Except.ok.inj h'
    have hread : t.NameRead name := by
      rcases hname with rfl | rfl
      · exact h name .word
      · exact h name .dottedWord
    apply of_parts
    · rintro x ⟨⟩
      exact hread
    · exact List.forall_mem_singleton.mpr basic
  · obtain ⟨z, -, h'⟩ := Traced.result_bind_eq_ok_iff.mp h'
    obtain rfl := Except.ok.inj h'
    have hread : t.NameRead name := by
      rcases hname with rfl | rfl
      · exact h name (.part (List.mem_cons_self ..) .word)
      · exact h name (.part (List.mem_cons_self ..) .dottedWord)
    apply of_parts
    · rintro x ⟨⟩
      exact hread
    · refine List.forall_mem_cons.mpr ⟨basic, fun p hp x hx => ?_⟩
      exact h x (.part (List.mem_cons_of_mem _ hp) hx)

end Element.NamesRead

namespace Recognizer

/-- A recogniser in whose answers all names were read. -/
def NamesRead (p : Recognizer) : Prop :=
  ∀ t pos e, (p t pos).result = .ok (some e) → e.NamesRead t

/-! ## Recognisers that are not made of others -/

theorem exists_kind_of_ofProgram {p : Regex.Program} {kind : Extent → Element} {t : Text} {pos : Nat}
    {e : Element} (h : (ofProgram p kind t pos).result = .ok (some e)) : ∃ x, e = kind x := by
  unfold ofProgram at h
  split at h
  · cases h
  · obtain ⟨x, -, h⟩ := Traced.result_bind_eq_ok_iff.mp h
    exact ⟨x, (Option.some.inj (Except.ok.inj h)).symm⟩

theorem namesRead_basic (p : Regex.Program) : NamesRead (ofProgram p .basic) := by
  intro t pos e h
  obtain ⟨x, rfl⟩ := exists_kind_of_ofProgram h
  exact .basic

/-- The answer of `word` is one name alone, which was just read. -/
theorem namesRead_word : NamesRead word := by
  intro t pos e h
  obtain ⟨y, rfl⟩ := exists_kind_of_ofProgram h
  refine .of_parts ?_ (List.forall_mem_nil _)
  rintro x ⟨⟩
  exact ⟨pos, .inl h⟩

theorem namesRead_dottedWord : NamesRead dottedWord := by
  intro t pos e h
  obtain ⟨y, rfl⟩ := exists_kind_of_ofProgram h
  refine .of_parts ?_ (List.forall_mem_nil _)
  rintro x ⟨⟩
  exact ⟨pos, .inr h⟩

theorem namesRead_bool : NamesRead bool := by
  intro t pos e h
  unfold bool at h
  split at h
  · cases h
  · obtain ⟨x, -, h⟩ := Traced.result_bind_eq_ok_iff.mp h
    obtain rfl := Option.some.inj (Except.ok.inj h)
    exact .of_parts nofun (List.forall_mem_nil _)

theorem namesRead_number : NamesRead number := by
  intro t pos e h
  unfold number at h
  split at h
  · split at h
    · cases h
    · split at h
      · cases h
      · split at h
        · cases h
        · obtain ⟨x, -, h⟩ := Traced.result_bind_eq_ok_iff.mp h
          obtain rfl := Option.some.inj (Except.ok.inj h)
          exact .of_parts nofun (List.forall_mem_nil _)
  · cases h

theorem namesRead_empty : NamesRead empty := by
  intro t pos e h
  unfold empty at h
  split at h
  · cases h
  · obtain ⟨x, -, h⟩ := Traced.result_bind_eq_ok_iff.mp h
    obtain rfl := Option.some.inj (Except.ok.inj h)
    exact .basic

theorem namesRead_plain (literal : Text) : NamesRead (plain literal) := by
  intro t pos e h
  unfold plain at h
  split at h
  · split at h
    · cases h
    · split at h
      · obtain ⟨x, -, h⟩ := Traced.result_bind_eq_ok_iff.mp h
        obtain rfl := Option.some.inj (Except.ok.inj h)
        exact .basic
      · cases h
  · cases h

theorem namesRead_symbol (literal : Text) : NamesRead (symbol literal) := by
  intro t pos e h
  obtain ⟨skipped, more, -, -, rfl⟩ := exists_of_result_symbol h
  exact .of_parts nofun (List.forall_mem_nil _)

theorem namesRead_string : NamesRead string := by
  intro t pos e h
  unfold string at h
  split at h
  · cases h
  · dsimp only at h
    split at h
    · cases h
    · split at h
      · split at h
        · cases h
        · obtain ⟨x, -, h⟩ := Traced.result_bind_eq_ok_iff.mp h
          obtain rfl := Option.some.inj (Except.ok.inj h)
          exact .of_parts nofun (List.forall_mem_nil _)
      · cases h

/-! ## Recognisers that are made of others -/

variable {t : Text} {pos : Nat}

/-- Step after step: all names in the items of `runAll` were read. By induction on the parts. -/
theorem namesRead_runAll {parts : List Recognizer} (hparts : ∀ p ∈ parts, NamesRead p)
    {items : List Element} {stop : Nat}
    (h : (runAll t parts pos).result = .ok (some (items, stop))) : ∀ e ∈ items, e.NamesRead t := by
  induction parts generalizing pos items with
  | nil =>
      obtain ⟨rfl, -⟩ := Prod.mk.inj (Option.some.inj (Except.ok.inj h))
      simp
  | cons p parts ih =>
      obtain ⟨e, rest, rfl, he, hrest⟩ := exists_of_runAll_cons h
      have hfirst := hparts p (List.mem_cons_self ..) t pos e he
      have hothers := ih (fun q hq => hparts q (List.mem_cons_of_mem _ hq)) hrest
      exact List.forall_mem_cons.mpr ⟨hfirst, hothers⟩

theorem namesRead_join {parts : List Recognizer} (hparts : ∀ p ∈ parts, NamesRead p) :
    NamesRead (join parts) := by
  intro t pos e h
  unfold join at h
  split at h
  · cases h
  obtain ⟨run, hrun, h⟩ := Traced.result_bind_eq_ok_iff.mp h
  rcases run with _ | ⟨items, stop⟩
  · cases h
  obtain ⟨j, hj, h⟩ := Traced.result_bind_eq_ok_iff.mp h
  obtain rfl := Option.some.inj (Except.ok.inj h)
  obtain ⟨x, -, rfl⟩ := exists_of_ofJoin hj
  exact .join (namesRead_runAll hparts hrun)

theorem namesRead_choice {parts : List Recognizer} (hparts : ∀ p ∈ parts, NamesRead p) :
    NamesRead (choice parts) := by
  intro t pos e h
  obtain ⟨p, hp, h⟩ := exists_of_choice h
  exact hparts p hp t pos e h

theorem namesRead_optional {part : Recognizer} (hpart : NamesRead part) :
    NamesRead (optional part) := by
  intro t pos e h
  unfold optional at h
  split at h
  · cases h
  obtain ⟨found, hfound, h⟩ := Traced.result_bind_eq_ok_iff.mp h
  cases found with
  | none =>
      obtain ⟨x, -, h⟩ := Traced.result_bind_eq_ok_iff.mp h
      obtain rfl := Option.some.inj (Except.ok.inj h)
      exact .basic
  | some e' =>
      obtain rfl := Option.some.inj (Except.ok.inj h)
      exact hpart t pos _ hfound

theorem namesRead_runSlots {parts : List Recognizer} (hparts : ∀ p ∈ parts, NamesRead p)
    {slots : List (Option Element)} {stop : Nat}
    (h : (runSlots t parts pos).result = .ok (slots, stop)) :
    ∀ e ∈ slots.filterMap id, e.NamesRead t := by
  induction parts generalizing pos slots with
  | nil =>
      obtain ⟨rfl, -⟩ := Prod.mk.inj (Except.ok.inj h)
      simp
  | cons p parts ih =>
      obtain ⟨slot, rest, rfl, hslot, hrest⟩ := exists_of_runSlots_cons h
      have hothers := ih (fun q hq => hparts q (List.mem_cons_of_mem _ hq)) hrest
      cases slot with
      | none => exact hothers
      | some e =>
          have hfirst := hparts p (List.mem_cons_self ..) t pos e hslot
          exact List.forall_mem_cons.mpr ⟨hfirst, hothers⟩

theorem namesRead_group {parts : List Recognizer} (hparts : ∀ p ∈ parts, NamesRead p) :
    NamesRead (group parts) := by
  intro t pos e h
  obtain ⟨⟨slots, stop⟩, hrun, h⟩ := Traced.result_bind_eq_ok_iff.mp h
  dsimp only at h
  split at h
  · obtain ⟨x, -, h⟩ := Traced.result_bind_eq_ok_iff.mp h
    obtain rfl := Option.some.inj (Except.ok.inj h)
    exact .group (namesRead_runSlots hparts hrun)
  · cases h

/-- `runItems` keeps what was answered for items, and drops the separators. -/
theorem namesRead_runItems {item separator : Recognizer} (hitem : NamesRead item) {bound : Nat}
    {run run' : ItemRun} (hrun : ∀ e ∈ run.items, e.NamesRead t)
    (h : (runItems t item separator bound run).result = .ok run') :
    ∀ e ∈ run'.items, e.NamesRead t := by
  induction bound generalizing run with
  | zero => cases h
  | succ bound ih =>
      obtain ⟨found, hfound, h⟩ := Traced.result_bind_eq_ok_iff.mp h
      cases found with
      | none =>
          obtain rfl := Except.ok.inj h
          exact hrun
      | some e =>
          have hnext : ∀ e' ∈ (run.addItem e).items, e'.NamesRead t := by
            intro e' he'
            rcases List.mem_append.mp he' with he' | he'
            · exact hrun e' he'
            · obtain rfl := List.mem_singleton.mp he'
              exact hitem t _ _ hfound
          obtain ⟨found, -, h⟩ := Traced.result_bind_eq_ok_iff.mp h
          cases found with
          | none =>
              obtain rfl := Except.ok.inj h
              exact hnext
          | some s =>
              dsimp only at h
              split at h
              · obtain rfl := Except.ok.inj h
                exact hnext
              · have hbehind : ∀ e' ∈ ((run.addItem e).addSeparator s).items, e'.NamesRead t := hnext
                exact ih hbehind h

theorem items_of_close? {shape : ListShape} {run run' : ItemRun} {stop : TokenEnd}
    (h : (shape.close? t run).result = .ok (some (run', stop))) : run'.items = run.items := by
  unfold ListShape.close? at h
  dsimp only at h
  split at h
  · obtain ⟨rfl, -⟩ := Prod.mk.inj (Option.some.inj (Except.ok.inj h))
    split <;> rfl
  · split at h
    · cases h
    obtain ⟨found, -, h⟩ := Traced.result_bind_eq_ok_iff.mp h
    cases found with
    | none => cases h
    | some e =>
        obtain ⟨rfl, -⟩ := Prod.mk.inj (Option.some.inj (Except.ok.inj h))
        rfl

/-- The items of a list are in its result, its separators and brackets are not. -/
theorem namesRead_list {shape : ListShape} (hitem : NamesRead shape.item) :
    NamesRead (list shape) := by
  intro t pos e h
  obtain ⟨opened, -, h⟩ := Traced.result_bind_eq_ok_iff.mp h
  rcases opened with _ | ⟨start?, begin⟩
  · cases h
  obtain ⟨run, hrun, h⟩ := Traced.result_bind_eq_ok_iff.mp h
  split at h
  · cases h
  obtain ⟨closed, hclose, h⟩ := Traced.result_bind_eq_ok_iff.mp h
  rcases closed with _ | ⟨run', stop⟩
  · cases h
  dsimp only at h
  split at h
  · cases h
  obtain ⟨x, -, h⟩ := Traced.result_bind_eq_ok_iff.mp h
  obtain rfl := Option.some.inj (Except.ok.inj h)
  have hitems := namesRead_runItems hitem (List.forall_mem_nil _) hrun
  rw [← items_of_close? hclose] at hitems
  exact .list hitems

/-- A type name keeps the name that was read, and the type names of its arguments. -/
theorem namesRead_typeName {name argument : Recognizer} (hname : NamesRead name)
    (hargument : NamesRead argument) : NamesRead (typeName name argument) := by
  intro t pos e h
  obtain ⟨found, hfound, h⟩ := Traced.result_bind_eq_ok_iff.mp h
  cases found with
  | none => cases h
  | some e' =>
      obtain ⟨e'', h'', h⟩ := Traced.result_bind_eq_ok_iff.mp h
      obtain rfl := Option.some.inj (Except.ok.inj h)
      have harguments : NamesRead (arguments argument) := namesRead_list hargument
      have hgeneric : NamesRead (join [name, arguments argument]) := by
        apply namesRead_join
        simp [hname, harguments]
      have hwhole : NamesRead (choice [join [name, arguments argument], name]) := by
        apply namesRead_choice
        simp [hname, hgeneric]
      exact (hwhole t pos e' hfound).asTypeName h''

end Recognizer

/-! ## Rules -/

namespace Rule

open Recognizer

variable {call : Slot → Recognizer}

mutual

/-- `NamesRead` goes through rules. One case for each constructor of `Rule`. -/
theorem namesRead_recognizer (hcall : ∀ slot, (call slot).NamesRead) :
    ∀ r : Rule, (recognizer call r).NamesRead
  | empty => by
      rw [recognizer]
      exact namesRead_empty
  | space => by
      rw [recognizer]
      exact namesRead_basic _
  | word => by
      rw [recognizer]
      exact namesRead_word
  | dottedWord => by
      rw [recognizer]
      exact namesRead_dottedWord
  | string => by
      rw [recognizer]
      exact namesRead_string
  | number => by
      rw [recognizer]
      exact namesRead_number
  | bool => by
      rw [recognizer]
      exact namesRead_bool
  | plain literal => by
      rw [recognizer]
      exact namesRead_plain literal
  | symbol literal => by
      rw [recognizer]
      exact namesRead_symbol literal
  | pattern p => by
      rw [recognizer]
      exact namesRead_basic p
  | join parts => by
      rw [recognizer]
      exact namesRead_join (namesRead_recognizers hcall parts)
  | choice alternatives => by
      rw [recognizer]
      exact namesRead_choice (namesRead_recognizers hcall alternatives)
  | group parts => by
      rw [recognizer]
      exact namesRead_group (namesRead_recognizers hcall parts)
  | optional part => by
      rw [recognizer]
      exact namesRead_optional (namesRead_recognizer hcall part)
  | list item separator opening closing allowTrailing allowEmpty => by
      rw [recognizer]
      exact namesRead_list (namesRead_recognizer hcall item)
  | typeName own name => by
      rw [recognizer]
      exact namesRead_typeName (namesRead_recognizer hcall name) (hcall own)
  | forward slot => by
      rw [recognizer]
      exact hcall slot

theorem namesRead_recognizers (hcall : ∀ slot, (call slot).NamesRead) :
    ∀ parts : List Rule, ∀ p ∈ recognizers call parts, p.NamesRead
  | [] => by
      intro p hp
      cases hp
  | r :: rest => by
      intro p hp
      rw [recognizers] at hp
      rcases List.mem_cons.mp hp with rfl | hp
      · exact namesRead_recognizer hcall r
      · exact namesRead_recognizers hcall rest p hp

end

/-- By induction on how often a slot may be followed. -/
theorem namesRead_through (resolve : Slot → Target) (depth : Nat) (slot : Slot) :
    (through resolve depth slot).NamesRead := by
  induction depth generalizing slot with
  | zero =>
      intro t pos e h
      cases h
  | succ depth ih =>
      unfold through
      split
      · intro t pos e h
        cases h
      · intro t pos e h
        cases h
      next r _ => exact namesRead_recognizer ih r

/-- In what `parse` answers all names were read by `word`, at any depth of the element and of the rule. -/
theorem namesRead_parse (resolve : Slot → Target) (slots : Nat) (r : Rule) :
    (r.parse resolve slots).NamesRead := by
  intro t pos e h
  exact namesRead_recognizer (namesRead_through resolve _) r t pos e h

/-- **Names are whole.** Every name at any depth of what `parse` answers was read by `word` or
    `dottedWord` where its span starts, so no word character follows it. It is `WordBefore` only if it
    starts with its span and the position is `WordBefore`, that is, if the name was looked for inside a
    word. -/
theorem names_whole {resolve : Slot → Target} {slots : Nat} {r : Rule} {t : Text} {pos : Nat}
    {e : Element} (h : (r.parse resolve slots t pos).result = .ok (some e)) {x : Extent}
    (hx : e.NameIn x) :
    ((Recognizer.word t x.span.start).result = .ok (some (.word x)) ∨
        (Recognizer.dottedWord t x.span.start).result = .ok (some (.dottedWord x))) ∧
      ¬ t.WordAfter x.stop ∧
      (t.WordBefore x.start ↔ x.start = x.span.start ∧ t.WordBefore x.span.start) := by
  obtain ⟨q, hread⟩ := namesRead_parse resolve slots r t pos e h x hx
  have hfound : ∃ e', ((Recognizer.word t q).result = .ok (some e') ∨
      (Recognizer.dottedWord t q).result = .ok (some e')) ∧ (e' = .word x ∨ e' = .dottedWord x) := by
    rcases hread with hread | hread
    · exact ⟨_, .inl hread, .inl rfl⟩
    · exact ⟨_, .inr hread, .inr rfl⟩
  obtain ⟨e', hread', hkind⟩ := hfound
  obtain ⟨lead, name, more, hfrom, hlead, hmore, htoken⟩ := exists_of_result_name hread'
  obtain rfl : x = .token q lead name := by
    rcases hkind with rfl | rfl <;> rcases htoken with htoken | htoken <;> cases htoken <;> rfl
  exact ⟨hread, Token.not_wordAfter hfrom hmore, Token.wordBefore_iff hfrom hlead⟩

/-- `names_whole` for two words in a list, the first of them behind a letter and a blank, the last one
    with a letter at its end that is not of ASCII. -/
theorem names_whole_comma : ∃ e, (Rule.parse (fun _ => .undefined) 0
      (.list .word (.symbol [',']) none none true true) ['é', ' ', 'a', ',', 'b', 'é'] 2).result
        = .ok (some e) ∧
      e.NameIn ⟨some ⟨3, 4, ⟨2, 4⟩⟩⟩ ∧ ¬ Text.WordBefore ['é', ' ', 'a', ',', 'b', 'é'] 3 ∧
      e.NameIn ⟨some ⟨5, 8, ⟨5, 8⟩⟩⟩ ∧ ¬ Text.WordAfter ['é', ' ', 'a', ',', 'b', 'é'] 8 := by
  have h : (Rule.parse (fun _ => .undefined) 0
      (.list .word (.symbol [',']) none none true true) ['é', ' ', 'a', ',', 'b', 'é'] 2).result
        = .ok (some (.list ⟨some ⟨3, 8, ⟨2, 8⟩⟩⟩
          [.word ⟨some ⟨3, 4, ⟨2, 4⟩⟩⟩, .word ⟨some ⟨5, 8, ⟨5, 8⟩⟩⟩] false)) := rfl
  have hfirst : Element.NameIn ⟨some ⟨3, 4, ⟨2, 4⟩⟩⟩ (.list ⟨some ⟨3, 8, ⟨2, 8⟩⟩⟩
      [.word ⟨some ⟨3, 4, ⟨2, 4⟩⟩⟩, .word ⟨some ⟨5, 8, ⟨5, 8⟩⟩⟩] false) :=
    .part (List.mem_cons_self ..) .word
  have hlast : Element.NameIn ⟨some ⟨5, 8, ⟨5, 8⟩⟩⟩ (.list ⟨some ⟨3, 8, ⟨2, 8⟩⟩⟩
      [.word ⟨some ⟨3, 4, ⟨2, 4⟩⟩⟩, .word ⟨some ⟨5, 8, ⟨5, 8⟩⟩⟩] false) :=
    .part (List.mem_cons_of_mem _ (List.mem_cons_self ..)) .word
  obtain ⟨-, -, hbefore⟩ := names_whole h hfirst
  obtain ⟨-, hafter, -⟩ := names_whole h hlast
  refine ⟨_, h, hfirst, ?_, hlast, hafter⟩
  intro hword
  exact absurd (hbefore.mp hword).1 (by decide)

/-- The exception of `names_whole` is there: behind a literal a word is looked for inside another word. -/
theorem names_split_literal : ∃ e, (Rule.parse (fun _ => .undefined) 0
      (.join [.plain ['i', 'n'], .word]) ['i', 'n', 't'] 0).result = .ok (some e) ∧
      e.NameIn ⟨some ⟨2, 3, ⟨2, 3⟩⟩⟩ ∧ Text.WordBefore ['i', 'n', 't'] 2 := by
  refine ⟨_, rfl, .part (List.mem_cons_of_mem _ (List.mem_cons_self ..)) .word, 'n', rfl, ?_⟩
  decide

end Rule

end Graft
