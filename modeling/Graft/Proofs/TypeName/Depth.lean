import Graft.Proofs.Grammar.SpelledOut
import Graft.Proofs.TypeName.Print

/-!
# `Graft.Proofs.TypeName.Depth` — how deep type names are nested

A type name reads its arguments through itself, and each of them may be tried in vain. Still the reading
ends, and it does so without a defect, if the rule of its name always answers and reads nothing but
names (`Grammar.typeName_depth`).

What carries this is a step: a type name is cut short only by one of its arguments, and that was read
behind an opening bracket, so fewer opening brackets lie ahead of it than of the type name
(`Recognizer.exists_of_typeName_error`). Hence at most so many type names are open in each other's
brackets as there are opening brackets ahead, and one more. To say so, type names are read with a bound
on how many of them may be open (`Recognizer.nested`); with a bound that is large enough, they read what
the type name of the grammar reads.
-/

namespace Graft

namespace Text

variable {t rest : Text} {c : Char} {p q : Nat}

/-- How often a character occurs from a position on; not at all where the text cannot be cut. -/
def countFrom (t : Text) (c : Char) (p : Nat) : Nat :=
  ((t.from? p).getD []).count c

theorem countFrom_of_from? (h : t.from? p = some rest) : t.countFrom c p = rest.count c := by
  rw [countFrom, h, Option.getD_some]

/-- Going forward leaves no more of a character. -/
theorem countFrom_le (hp : t.isBoundary p = true) (hle : p ≤ q) (hq : t.isBoundary q = true) :
    t.countFrom c q ≤ t.countFrom c p := by
  obtain ⟨rest, hrest⟩ := Option.isSome_iff_exists.mp hp
  obtain ⟨more, hmore⟩ := Option.isSome_iff_exists.mp hq
  obtain ⟨k, rfl⟩ := Nat.exists_eq_add_of_le hle
  rw [countFrom_of_from? hrest, countFrom_of_from? hmore]
  obtain ⟨s, rfl, -⟩ := exists_of_from? ((from?_add hrest k).symm.trans hmore)
  rw [List.count_append]
  exact Nat.le_add_left _ _

end Text

namespace Recognizer

variable {t : Text} {pos : Nat} {name argument : Recognizer} {halt : Halt}

/-- A recogniser that answers everywhere in a text, and with nothing but names. -/
def Names (t : Text) (p : Recognizer) : Prop :=
  ∀ pos, ∃ found, (p t pos).result = .ok found ∧ ∀ e ∈ found, e.isName = true

/-- A type name with at most so many type names open in each other's brackets, itself included. Its name
    is read as ever. -/
def nested (name : Recognizer) : Nat → Recognizer
  | 0 => fun _ _ => .halt .endless
  | depth + 1 => typeName name (nested name depth)

/-- `ofProgram` halts nowhere, so it is `Names` if it makes names. -/
theorem names_ofProgram (p : Regex.Program) {kind : Extent → Element}
    (hkind : ∀ x, (kind x).isName = true) : Names t (ofProgram p kind) := by
  intro pos
  unfold ofProgram
  split
  · exact ⟨none, rfl, by simp⟩
  next b _ =>
    obtain ⟨x, hx⟩ := Extent.exists_ok_ofRange t b.start b.stop b.span
    refine ⟨some (kind x), Traced.result_bind_eq_ok_iff.mpr ⟨x, hx, rfl⟩, ?_⟩
    rintro e ⟨⟩
    exact hkind x

/-! ## Type names that are cut short -/

/-- `countFrom` goes down behind an opening bracket. It is the measure of this module. -/
theorem countFrom_opening {opening : Element} (h : (symbol ['<'] t pos).result = .ok (some opening)) :
    t.countFrom '<' opening.span.stop < t.countFrom '<' pos := by
  obtain ⟨skipped, more, hfrom, -, rfl⟩ := exists_of_result_symbol h
  have hbehind : t.from? (pos + skipped.size + Text.size ['<']) = some more :=
    Text.from?_add_size (Text.from?_add_size hfrom)
  show t.countFrom '<' (pos + skipped.size + Text.size ['<']) < _
  rw [Text.countFrom_of_from? hfrom, Text.countFrom_of_from? hbehind, List.count_append,
    List.singleton_append, List.count_cons_self]
  omega

/-- `arguments` halts only with one of them, behind the opening bracket. -/
theorem exists_of_arguments_error (hargument : argument.Sound) (hpos : t.isBoundary pos = true)
    (h : (arguments argument t pos).result = .error halt) :
    ∃ q, t.countFrom '<' q < t.countFrom '<' pos ∧ (argument t q).result = .error halt := by
  rcases Traced.result_bind_eq_error_iff.mp h with hstopped | ⟨opened, hopen, hrest⟩
  · obtain ⟨p, ⟨⟩, hstopped⟩ := exists_of_open?_error hstopped
    obtain ⟨found, hfound⟩ := exists_ok_symbol ['<'] t pos
    cases hfound.symm.trans hstopped
  rcases opened with _ | ⟨start?, begin⟩
  · cases hrest
  rcases exists_of_open? hopen with ⟨⟨⟩, -⟩ | ⟨p, opening, ⟨⟩, hopening, -, rfl⟩
  obtain ⟨hle, hsound⟩ := sound_of_boundary (sound_symbol _ t pos _ hopening) hpos
  have hplaced := hsound.placed
  have hbegin := hplaced.span_stop_boundary
  obtain ⟨p, hp, q, hfrom, hq, hstopped⟩ := exists_of_opened_error hargument (sound_symbol _) hpos
    (Nat.le_trans hle hplaced.span_start_le_stop) hbegin hopen h
  have hless : t.countFrom '<' q < t.countFrom '<' pos :=
    Nat.lt_of_le_of_lt (Text.countFrom_le hbegin hfrom hq) (countFrom_opening hopening)
  rcases hp with _ | ⟨_, _ | ⟨_, _ | ⟨_, ⟨⟩⟩⟩⟩
  · exact ⟨q, hless, hstopped⟩
  -- the comma and the closing bracket always answer
  · obtain ⟨found, hfound⟩ := exists_ok_symbol [','] t q
    cases hfound.symm.trans hstopped
  · obtain ⟨found, hfound⟩ := exists_ok_symbol ['>'] t q
    cases hfound.symm.trans hstopped

/-- Names are found only at cuts, by `misplaced_of_inside`. -/
theorem isBoundary_of_isName {e : Element} (hname : name.Sound)
    (h : (name t pos).result = .ok (some e)) (he : e.isName = true) : t.isBoundary pos = true := by
  by_contra hpos
  have hinside : t.isBoundary pos = false := by simpa using hpos
  have hmis := misplaced_of_inside (hname t pos _ h) hinside
  rw [hmis.not_name] at he
  cases he

/-- A name with `arguments` halts only with one of these. -/
theorem exists_of_generic_error (hname : name.Sound) (hnames : Names t name)
    (hargument : argument.Sound)
    (h : (join [name, arguments argument] t pos).result = .error halt) :
    ∃ q, t.countFrom '<' q < t.countFrom '<' pos ∧ (argument t q).result = .error halt := by
  obtain ⟨found, hfound, hall⟩ := hnames pos
  rcases error_of_runAll_cons (error_of_join h) with hstopped | ⟨e, he, h⟩
  · cases hfound.symm.trans hstopped
  obtain rfl := Except.ok.inj (hfound.symm.trans he)
  have hpos := isBoundary_of_isName hname he (hall e rfl)
  obtain ⟨hle, hsound⟩ := sound_of_boundary (hname t pos _ he) hpos
  have hplaced := hsound.placed
  rcases error_of_runAll_cons h with h | ⟨_, -, ⟨⟩⟩
  obtain ⟨q, hless, hstopped⟩ := exists_of_arguments_error hargument hplaced.span_stop_boundary h
  have hbehind := Text.countFrom_le (c := '<') hpos (Nat.le_trans hle hplaced.span_start_le_stop)
    hplaced.span_stop_boundary
  exact ⟨q, Nat.lt_of_lt_of_le hless hbehind, hstopped⟩

/-! Of a name, or of a name and a list, a type name is always made. -/

theorem exists_ok_asTypeName {e : Element} (he : e.isName = true) :
    ∃ e', (asTypeName t e).result = .ok e' := by
  have hmade (x : Extent) : ∃ e', (Element.ofName t x x.span).result = .ok e' := by
    obtain ⟨y, hy⟩ := Extent.exists_ok_ofRange t x.start x.stop x.span
    exact ⟨.typeName y x, Traced.result_bind_eq_ok_iff.mpr ⟨y, hy, rfl⟩⟩
  unfold Element.isName at he
  split at he
  next x => exact hmade x
  next x => exact hmade x
  next => cases he

theorem exists_ok_asTypeName_generic {x y : Extent} {first : Element} {items : List Element}
    {trailing : Bool} (hfirst : first.isName = true) :
    ∃ e', (asTypeName t (.join x [first, .list y items trailing])).result = .ok e' := by
  have hmade (z : Extent) :
      ∃ e', (Element.ofGeneric t z y items trailing x.span).result = .ok e' := by
    obtain ⟨w, hw⟩ := Extent.exists_ok_ofRange t z.start y.span.stop x.span
    exact ⟨.genericName w z y items trailing, Traced.result_bind_eq_ok_iff.mpr ⟨w, hw, rfl⟩⟩
  unfold Element.isName at hfirst
  split at hfirst
  next z => exact hmade z
  next z => exact hmade z
  next => cases hfirst

/-- What `typeName` hands to `asTypeName` has one of the shapes that this takes, so the defect for other
    shapes never comes up. -/
theorem exists_ok_asTypeName_of_choice {j : Element} (hnames : Names t name)
    (h : (choice [join [name, arguments argument], name] t pos).result = .ok (some j)) :
    ∃ e, (asTypeName t j).result = .ok e := by
  obtain ⟨found, hfound, hall⟩ := hnames pos
  obtain ⟨p, hp, hread⟩ := exists_of_choice h
  rcases hp with _ | ⟨_, _ | ⟨_, ⟨⟩⟩⟩
  · obtain ⟨parts, stop, x, hrun, -, rfl⟩ := exists_of_join hread
    obtain ⟨first, _, rfl, hfirst, hrun⟩ := exists_of_runAll_cons hrun
    obtain ⟨list, _, rfl, hlist, hrun⟩ := exists_of_runAll_cons hrun
    obtain ⟨rfl, -⟩ := Prod.mk.inj (Option.some.inj (Except.ok.inj hrun))
    obtain ⟨-, run, -, y, -, rfl⟩ := exists_reading_of_list hlist
    obtain rfl := Except.ok.inj (hfound.symm.trans hfirst)
    exact exists_ok_asTypeName_generic (hall first rfl)
  · obtain rfl := Except.ok.inj (hfound.symm.trans hread)
    exact exists_ok_asTypeName (hall j rfl)

/-- `typeName` halts only with one of its arguments, at a position with a smaller `countFrom`. -/
theorem exists_of_typeName_error (hname : name.Sound) (hnames : Names t name)
    (hargument : argument.Sound) (h : (typeName name argument t pos).result = .error halt) :
    ∃ q, t.countFrom '<' q < t.countFrom '<' pos ∧ (argument t q).result = .error halt := by
  rcases Traced.result_bind_eq_error_iff.mp h with h | ⟨found, hfound, h⟩
  · obtain ⟨p, hp, hstopped⟩ := exists_of_choice_error h
    rcases hp with _ | ⟨_, _ | ⟨_, ⟨⟩⟩⟩
    · exact exists_of_generic_error hname hnames hargument hstopped
    · obtain ⟨found, hfound, -⟩ := hnames pos
      cases hfound.symm.trans hstopped
  cases found with
  | none => cases h
  | some j =>
      obtain ⟨e, he⟩ := exists_ok_asTypeName_of_choice hnames hfound
      rcases Traced.result_bind_eq_error_iff.mp h with h | ⟨e', -, h⟩
      · cases he.symm.trans h
      · cases h

/-- `typeName` finds something just where its name does: without arguments the name is left. -/
theorem isSome_of_typeName {found : Option Element}
    (h : (typeName name argument t pos).result = .ok found) :
    found.isSome = true ↔ ∃ e, (name t pos).result = .ok (some e) := by
  constructor
  · intro hsome
    obtain ⟨e, rfl⟩ := Option.isSome_iff_exists.mp hsome
    obtain ⟨j, hread | hread, -⟩ := exists_of_typeName h
    · obtain ⟨parts, stop, x, hrun, -⟩ := exists_of_join hread
      obtain ⟨first, rest, -, hfirst, -⟩ := exists_of_runAll_cons hrun
      exact ⟨first, hfirst⟩
    · exact ⟨j, hread⟩
  · rintro ⟨e, he⟩
    obtain ⟨chosen, hchosen, h⟩ := Traced.result_bind_eq_ok_iff.mp h
    cases chosen with
    | some j =>
        obtain ⟨e', -, h⟩ := Traced.result_bind_eq_ok_iff.mp h
        rw [← Except.ok.inj h]
        rfl
    | none =>
        -- then both were tried, and the name answered nothing
        obtain ⟨generic, -, hchosen⟩ := Traced.result_bind_eq_ok_iff.mp hchosen
        cases generic with
        | some j => cases hchosen
        | none =>
            obtain ⟨plain, hplain, hchosen⟩ := Traced.result_bind_eq_ok_iff.mp hchosen
            obtain rfl := Except.ok.inj (he.symm.trans hplain)
            cases hchosen

/-! ## Nested type names -/

/-- `nested` names are `Sound` at every depth. At depth zero nothing is answered. -/
theorem sound_nested (hname : name.Sound) (depth : Nat) : (nested name depth).Sound := by
  induction depth with
  | zero =>
      intro t pos found h
      cases h
  | succ depth ih => exact sound_typeName hname ih

/-- `nested` does not halt if its bound is above `countFrom`. By induction on the bound: a halt would come
    from an argument, with less ahead than the next bound. -/
theorem exists_ok_nested (hname : name.Sound) (hnames : Names t name) {depth : Nat}
    (hdepth : t.countFrom '<' pos < depth) :
    ∃ found, (nested name depth t pos).result = .ok found := by
  -- on the bound, at all positions: the argument that stops a type name has less ahead of it
  induction depth generalizing pos with
  | zero => exact absurd hdepth (Nat.not_lt_zero _)
  | succ depth ih =>
      cases hresult : (nested name (depth + 1) t pos).result with
      | ok found => exact ⟨found, rfl⟩
      | error halt =>
          obtain ⟨q, hless, hstopped⟩ :=
            exists_of_typeName_error hname hnames (sound_nested hname depth) hresult
          obtain ⟨found, hfound⟩ := ih (Nat.lt_of_lt_of_le hless (Nat.le_of_lt_succ hdepth))
          cases hfound.symm.trans hstopped

/-- `nested` says no more than the whole: a bound takes nothing away but answers. -/
theorem under_nested {whole : Recognizer} (hname : name.Sound)
    (h : ∀ q, (whole t q).result = (typeName name whole t q).result) (depth : Nat) :
    Under t (fun _ => True) (nested name depth) whole := by
  have hS : Closed t fun _ => True := fun _ _ _ _ => trivial
  induction depth with
  | zero => exact ⟨sound_nested hname 0, fun _ _ => .inl rfl⟩
  | succ depth ih =>
      refine ⟨sound_nested hname (depth + 1), fun q hq => ?_⟩
      have hbelow := (under_typeName hS (.refl hname) ih).below q hq
      unfold Traced.Below at hbelow ⊢
      rw [h q]
      exact hbelow

/-- Where the name needs no slots, `through` opens only the type name's own slot, once for each level of
    `nested`. -/
theorem through_eq_nested {resolve : Slot → Rule.Target} {own : Slot} {r : Rule}
    (hown : resolve own = .rule (.typeName own r)) (hr : ∀ call, r.recognizer call = name)
    (depth : Nat) : Rule.through resolve depth own = nested name depth := by
  induction depth with
  | zero => rfl
  | succ depth ih =>
      rw [Rule.through, hown]
      show Rule.recognizer (Rule.through resolve depth) (.typeName own r) = _
      rw [Rule.recognizer, hr, ih, nested]

end Recognizer

namespace Grammar

open Recognizer

variable {g : Grammar} {own : Slot} {name : Rule}

/-- The `recognizer` of a type name whose slot leads back to it is `typeName` with itself for the
    arguments. -/
theorem result_typeName (h : g.target own = .rule (.typeName own name)) (t : Text) (pos : Nat) :
    (g.recognizer (.typeName own name) t pos).result
      = (typeName (g.recognizer name) (g.recognizer (.typeName own name)) t pos).result := by
  let call : Slot → Recognizer := fun slot => g.recognizer (.forward slot)
  have hcall (slot : Slot) : (call slot).Sound := g.sound_recognizer _
  have hname (q : Nat) : (name.recognizer call t q).result = (g.recognizer name t q).result :=
    (g.result_recognizer name t q).symm
  have hown (q : Nat) :
      (call own t q).result = (g.recognizer (.typeName own name) t q).result :=
    result_recognizer_forward h t q
  have hS : Closed t fun _ => True := fun _ _ _ _ => trivial
  have hless := under_typeName hS
    ⟨Rule.sound_recognizer hcall name, fun q _ => .inr (hname q)⟩
    ⟨hcall own, fun q _ => .inr (hown q)⟩
  have hmore := under_typeName hS
    ⟨g.sound_recognizer name, fun q _ => .inr (hname q).symm⟩
    ⟨g.sound_recognizer (.typeName own name), fun q _ => .inr (hown q).symm⟩
  rw [result_recognizer, Rule.recognizer]
  exact (hless.below pos trivial).antisymm (hmore.below pos trivial)

/-- **Depth.** After any session, for each type name in a rule that is alive. If the rule of its name is
    `Names` in a text, the type name answers everywhere in that text and is found just where its name is.
    It halts nowhere, with no defect in the shape of what it is made from nor in the forward to itself. It
    answers the same when no more type names may be open in each other's brackets than `countFrom` tells
    opening brackets ahead, and one more; the rule of its name is read as ever, whatever that bound is. -/
theorem typeName_depth [Regex.Engine] (steps : List Step) :
    let g := empty.afterAll steps
    ∀ id r own name t, g.rule? id = some r → r.Contains (.typeName own name) →
      (∀ q, ∃ found, (g.recognizer name t q).result = .ok found ∧ ∀ e ∈ found, e.isName = true) →
      ∀ pos, ∃ found, (g.recognizer (.typeName own name) t pos).result = .ok found ∧
        (found.isSome = true ↔ ∃ e, (g.recognizer name t pos).result = .ok (some e)) ∧
        (nested (g.recognizer name) (1 + ((t.from? pos).getD []).count '<') t pos).result
          = .ok found ∧
        ((∀ call, name.recognizer call = g.recognizer name) →
          (Rule.through g.target (1 + ((t.from? pos).getD []).count '<') own t pos).result
            = .ok found) := by
  intro g id r own name t hr hin hnames pos
  have htarget := (tidy_afterAll steps).target_of_contains hr hin
  have hname := g.sound_recognizer name
  have hless : t.countFrom '<' pos < 1 + t.countFrom '<' pos := by omega
  obtain ⟨found, hfound⟩ := exists_ok_nested hname hnames hless
  have hwhole : (g.recognizer (.typeName own name) t pos).result = .ok found := by
    -- the bound took nothing away, for it was not exceeded
    have hunder := under_nested hname (result_typeName htarget t) (1 + t.countFrom '<' pos)
    rcases hunder.below pos trivial with hendless | hsame
    · cases hfound.symm.trans hendless
    · exact hsame.symm.trans hfound
  refine ⟨found, hwhole, ?_, hfound, ?_⟩
  · rw [result_typeName htarget] at hwhole
    exact isSome_of_typeName hwhole
  · intro hslots
    rw [through_eq_nested htarget hslots]
    exact hfound

/-- `typeName_depth` for two type names in each other's brackets, the outer one not closed. -/
theorem typeName_depth_unclosed :
    let g := empty.afterAll [.storeRule ['r'] (.typeName .dottedWord)]
    g.rule? 1 = some (.typeName 0 .dottedWord) ∧
    ∃ found, (g.recognizer (.typeName 0 .dottedWord) ['a', '<', 'b', '<', 'c', '>'] 0).result
        = .ok found ∧
      (nested (g.recognizer .dottedWord) 3 ['a', '<', 'b', '<', 'c', '>'] 0).result = .ok found ∧
      (Rule.through g.target 3 0 ['a', '<', 'b', '<', 'c', '>'] 0).result = .ok found := by
  intro g
  have hr : g.rule? 1 = some (.typeName 0 .dottedWord) := rfl
  obtain ⟨found, hfound, -, hnested, hthrough⟩ :=
    typeName_depth [.storeRule ['r'] (.typeName .dottedWord)] 1 _ 0 .dottedWord
      ['a', '<', 'b', '<', 'c', '>'] hr .refl (names_ofProgram _ fun _ => rfl) 0
  exact ⟨hr, found, hfound, hnested, hthrough fun _ => rfl⟩

end Grammar

end Graft
