import Graft.Proofs.Draft.Nested
import Graft.Proofs.Locator.Interior
import Graft.Proofs.Revision

/-!
# `Graft.Proofs.Revision.Nested` — revisions inside the constructs of a revision

A transform may revise the interior of each construct in turn, and put the outcome between what stands
before the interior and what stands after it (`Transform.inInterior`). Two levels of revision then come
to the same as one draft that is given the inner edits of all constructs directly
(`reviseFrom_inInterior`).

The argument goes by what each level leaves alone. An interior lies inside its construct, so the reply
about a construct is the construct with its inner constructs replaced (`Unfolded`). Such replies can be
unfolded: the inner constructs of all constructs are in order as well (`Unfolded.sequence`), and a text
in which the outer constructs are replaced is the text in which the inner ones are
(`Unfolded.patched`).
-/

namespace Graft

open Text (Patched)

/-- A transform that revises the interior of a construct with another locator and another transform, and
    keeps the rest of the construct. The refusals of the inner revision are handed on. A construct
    without an interior stays as it is. -/
def Transform.inInterior {σ : Type} (t : Text) (l : Locator) (transform : Transform.Remembering σ) :
    Transform.Remembering σ := fun memory b =>
  match b.interior? with
  | none => return (⟨none, []⟩, memory)
  | some i => do
      let opening ← Traced.ofSlice (t.slice? b.start i.start)
      let (outcome, memory) ← reviseFrom t i.start i.stop l transform memory
      let closing ← Traced.ofSlice (t.slice? i.stop b.stop)
      return (⟨some (opening ++ (outcome.text ++ closing)), outcome.refusals⟩, memory)

/-- A transform that hands on no refusals of its own. -/
def Transform.Silent {σ : Type} (transform : Transform.Remembering σ) : Prop :=
  ∀ memory b r next, (transform memory b).result = .ok (r, next) → r.refusals = []

/-- A construct and the replies about the constructs inside it. -/
abbrev Opened := Block × List Replied

/-! ## Unfolding replies -/

/-- Replies about constructs, and the replies about their inner constructs that they are made from: each
    is the construct with its inner constructs replaced as the inner replies say. -/
inductive Unfolded (t : Text) : List Replied → List Opened → Prop
  | nil : Unfolded t [] []
  | cons {b : Block} {s : Text} {inner : List Replied} {replied : List Replied}
      {opened : List Opened} (hinner : Block.Sequence t b.stop b.start (inner.map (·.1)))
      (htext : Patched t b.stop b.start (inner.map Replied.patch) s)
      (hrest : Unfolded t replied opened) :
      Unfolded t ((b, ⟨some s, []⟩) :: replied) ((b, inner) :: opened)

namespace Unfolded

variable {t : Text} {lo hi : Nat} {replied : List Replied} {opened : List Opened}

theorem map_fst (h : Unfolded t replied opened) : opened.map (·.1) = replied.map (·.1) := by
  induction h with
  | nil => rfl
  | cons _ _ _ ih => rw [List.map_cons, List.map_cons, ih]

theorem refusals (h : Unfolded t replied opened) : replied.flatMap (·.2.refusals) = [] := by
  induction h with
  | nil => rfl
  | cons _ _ _ ih => rw [List.flatMap_cons, ih]; rfl

/-- `Unfolded` constructs in order give inner constructs in order. -/
theorem sequence (h : Unfolded t replied opened)
    (hseq : Block.Sequence t hi lo (replied.map (·.1))) :
    Block.Sequence t hi lo ((opened.flatMap (·.2)).map (·.1)) := by
  induction h generalizing lo with
  | nil => exact .nil
  | cons hinner _ _ ih =>
      cases hseq with
      | cons hb hrest =>
        rw [List.flatMap_cons, List.map_append]
        exact (hinner.append hb.start_le_stop hb.stop_le (ih hrest)).weaken
          (Nat.le_trans hb.le_span hb.span_le)

/-- `Patched` by replies that revise interiors is `Patched` by the inner replies: what is around an inner
    construct is kept, within its interior and outside. -/
theorem patched {out : Text} (h : Unfolded t replied opened)
    (hout : Patched t hi lo (replied.map Replied.patch) out) :
    Patched t hi lo ((opened.flatMap (·.2)).map Replied.patch) out := by
  induction h generalizing lo out with
  | nil => exact hout
  | cons _ htext _ ih =>
      cases hout with
      | patch hkept _ hrest =>
        rw [List.flatMap_cons, List.map_append]
        exact (htext.append (ih hrest)).extend hkept

end Unfolded

/-! ## One construct -/

section

variable {σ : Type} {t : Text} {l : Locator} {transform : Transform.Remembering σ} {b : Block}
  {i : Span} {first limit : Nat} {memory next last : σ}

/-- `Answered` for constructs in two parts, the second one from the memory that the first one leaves. -/
theorem Transform.Answered.append {replied replied' : List Replied}
    (h : Answered transform memory replied next) (h' : Answered transform next replied' last) :
    Answered transform memory (replied ++ replied') last := by
  induction h with
  | done => exact h'
  | reply hreply _ ih => exact .reply hreply (ih h')

theorem Transform.Answered.refusals {replied : List Replied}
    (h : Answered transform memory replied last) (hsilent : Silent transform) :
    replied.flatMap (·.2.refusals) = [] := by
  induction h with
  | done => rfl
  | reply hreply _ ih => rw [List.flatMap_cons, ih, hsilent _ _ _ _ hreply]; rfl

/-- What `Transform.inInterior` says about one construct: it is the construct with everything replaced
    that the inner locator finds in the interior, by `patched_of_reviseFrom` over the interior. -/
theorem reply_of_inInterior {r : Reply} (hl : l.recognizer.Sound)
    (hsilent : Transform.Silent transform) (hb : b.Placed t first limit)
    (hi : b.interior? = some i) (hwithin : i.Within t b.start b.stop)
    (h : (Transform.inInterior t l transform memory b).result = .ok (r, next)) :
    ∃ (inner : List Replied) (s : Text), r = ⟨some s, []⟩ ∧
      (l.locateAll t i.start i.stop).result = .ok (inner.map (·.1)) ∧
      Transform.Answered transform memory inner next ∧
      Block.Sequence t b.stop b.start (inner.map (·.1)) ∧
      Patched t b.stop b.start (inner.map Replied.patch) s := by
  have hscope : (Draft.ofWindow t i.start i.stop).scope = i :=
    Draft.scope_ofWindow hwithin.start_boundary hwithin.stop_boundary hwithin.start_le_stop
  unfold Transform.inInterior at h
  rw [hi] at h
  obtain ⟨opening, hopening, h⟩ := Traced.result_bind_eq_ok_iff.mp h
  obtain ⟨⟨o, memory'⟩, hrevise, h⟩ := Traced.result_bind_eq_ok_iff.mp h
  obtain ⟨closing, hclosing, h⟩ := Traced.result_bind_eq_ok_iff.mp h
  obtain ⟨rfl, rfl⟩ := Prod.mk.inj (Except.ok.inj h)
  obtain ⟨kept, hkept⟩ := Text.exists_slice? hwithin.le_start hb.start_boundary hwithin.start_boundary
  obtain ⟨kept', hkept'⟩ := Text.exists_slice? hwithin.stop_le hwithin.stop_boundary hb.stop_boundary
  rw [hkept] at hopening
  rw [hkept'] at hclosing
  obtain rfl := Except.ok.inj hopening
  obtain rfl := Except.ok.inj hclosing
  obtain ⟨inner, hlocate, hanswered, hsequence, hrefusals, hpatched⟩ := patched_of_reviseFrom hl hrevise
  rw [hscope] at hlocate hsequence hpatched
  refine ⟨inner, kept ++ (o.text ++ kept'), ?_, hlocate, hanswered, ?_, ?_⟩
  · rw [hrefusals, hanswered.refusals hsilent]
  · have hwider := hsequence.append hwithin.start_le_stop hwithin.stop_le .nil
    rw [List.append_nil] at hwider
    exact hwider.weaken hwithin.le_start
  · have hwider := (hpatched.append (.done hkept')).extend hkept
    rwa [List.append_nil] at hwider

/-- `Transform.inInterior` halts only with the inner locator, or with the inner transform at a construct
    that this locator finds. -/
theorem error_of_inInterior {halt : Halt} (hl : l.recognizer.Sound) (hb : b.Placed t first limit)
    (hi : b.interior? = some i) (hwithin : i.Within t b.start b.stop)
    (h : (Transform.inInterior t l transform memory b).result = .error halt) :
    (∃ pos, i.start ≤ pos ∧ pos < i.stop ∧ t.isBoundary pos = true ∧
        (l.recognizer t pos).result = .error halt) ∨
      ∃ (inner : List Replied) (c : Block) (rest : List Block) (next : σ),
        (l.locateAll t i.start i.stop).result = .ok (inner.map (·.1) ++ c :: rest) ∧
          Transform.Answered transform memory inner next ∧
          (transform next c).result = .error halt := by
  have hscope : (Draft.ofWindow t i.start i.stop).scope = i :=
    Draft.scope_ofWindow hwithin.start_boundary hwithin.stop_boundary hwithin.start_le_stop
  obtain ⟨kept, hkept⟩ := Text.exists_slice? hwithin.le_start hb.start_boundary hwithin.start_boundary
  obtain ⟨kept', hkept'⟩ := Text.exists_slice? hwithin.stop_le hwithin.stop_boundary hb.stop_boundary
  unfold Transform.inInterior at h
  rw [hi] at h
  dsimp only at h
  rw [hkept, hkept'] at h
  rcases Traced.result_bind_eq_error_iff.mp h with h | ⟨opening, -, h⟩
  · cases h
  rcases Traced.result_bind_eq_error_iff.mp h with h | ⟨⟨o, memory'⟩, -, h⟩
  · have herror := error_of_reviseFrom hl h
    rwa [hscope] at herror
  rcases Traced.result_bind_eq_error_iff.mp h with h | ⟨closing, -, h⟩
  · cases h
  · cases h

/-! ## All constructs -/

/-- The constructs that another locator finds in the interior of a construct. -/
def Opened.Found (l : Locator) (t : Text) (p : Opened) : Prop :=
  ∃ i, p.1.interior? = some i ∧ (l.locateAll t i.start i.stop).result = .ok (p.2.map (·.1))

/-- A transform is cut short at a construct inside those that another locator finds between two
    positions, having been asked about all the inner constructs before it. -/
def Transform.HaltsInside (transform : Transform.Remembering σ) (outer l : Locator) (t : Text)
    (start stop : Nat) (memory : σ) (halt : Halt) : Prop :=
  ∃ (opened : List Opened) (b : Block) (later : List Block) (asked : List Replied) (c : Block)
      (rest : List Block) (next : σ),
    (outer.locateAll t start stop).result = .ok (opened.map (·.1) ++ b :: later) ∧
      (∀ p ∈ opened, p.Found l t) ∧
      (∃ i, b.interior? = some i ∧
        (l.locateAll t i.start i.stop).result = .ok (asked.map (·.1) ++ c :: rest)) ∧
      Transform.Answered transform memory (opened.flatMap (·.2) ++ asked) next ∧
      (transform next c).result = .error halt

/-- Replies of `Transform.inInterior` about constructs in order can be `Unfolded`, and the inner transform
    has `Answered` about the inner constructs of all of them, one after the other. -/
theorem exists_unfolded {replied : List Replied} (hl : l.recognizer.Sound)
    (hsilent : Transform.Silent transform)
    (h : Transform.Answered (Transform.inInterior t l transform) memory replied last)
    (hseq : Block.Sequence t limit first (replied.map (·.1)))
    (hinterior : ∀ b ∈ replied.map (·.1), ∃ i, b.interior? = some i ∧ i.Within t b.start b.stop) :
    ∃ opened : List Opened, Unfolded t replied opened ∧ (∀ p ∈ opened, p.Found l t) ∧
      Transform.Answered transform memory (opened.flatMap (·.2)) last := by
  induction h generalizing first with
  | done => exact ⟨[], .nil, by simp, .done⟩
  | @reply memory next last b r rest hreply _ ih =>
      cases hseq with
      | cons hb hrest =>
        obtain ⟨i, hi, hwithin⟩ := hinterior b (List.mem_cons_self ..)
        obtain ⟨inner, s, rfl, hlocate, hanswered, hsequence, hpatched⟩ :=
          reply_of_inInterior hl hsilent hb hi hwithin hreply
        obtain ⟨opened, hunfolded, hfound, hlater⟩ :=
          ih hrest fun c hc => hinterior c (List.mem_cons_of_mem _ hc)
        refine ⟨(b, inner) :: opened, .cons hsequence hpatched hunfolded, ?_, ?_⟩
        · intro p hp
          rcases List.mem_cons.mp hp with rfl | hp
          · exact ⟨i, hi, hlocate⟩
          · exact hfound p hp
        · rw [List.flatMap_cons]
          exact hanswered.append hlater

/-- What a block locator finds in the window of a draft has interiors, by `Scanned.exists_interior`. -/
theorem Draft.exists_interior_of_locateAll {header : Recognizer} {closing : Closing}
    {wanted : Option Text} {start stop : Nat} {blocks : List Block} (hheader : header.Sound)
    (h : ((Locator.block header closing wanted).locateAll t (ofWindow t start stop).scope.start
      (ofWindow t start stop).scope.stop).result = .ok blocks) :
    ∀ b ∈ blocks, ∃ i, b.interior? = some i ∧ i.Within t b.start b.stop := by
  have hstart := (coherent_ofWindow t start stop).scope_start_boundary
  have hscan := Locator.scanned_of_scan (l := .block header closing wanted) hheader
    (Nat.min_le_right _ _) (Nat.le_refl _) hstart h
  exact hscan.exists_interior hheader (Nat.min_le_right _ _) hstart

end

/-- **Nested revisions.** `reviseFrom` with `Transform.inInterior`, for rules and over any window, with an
    inner transform that is `Silent`. It comes to the same as one flat draft over that window to which the
    edits for the inner constructs of all blocks are submitted: none of them is refused, no refusal is
    handed on, and everything outside the inner constructs is kept. It halts only where one of the rules
    does, or the inner transform at an inner construct. -/
theorem reviseFrom_inInterior {resolve resolve' : Slot → Rule.Target} {slots slots' : Nat}
    {r r' : Rule} {inner : Locator} (hinner : inner.recognizer = r'.parse resolve' slots')
    (closing : Closing) (wanted : Option Text) (t : Text) (start stop : Nat) {σ : Type}
    {transform : Transform.Remembering σ} (hsilent : Transform.Silent transform) (memory : σ) :
    let outer := Locator.block (r.parse resolve slots) closing wanted
    let d := Draft.ofWindow t start stop
    (∃ (opened : List Opened) (out : Text) (last : σ),
      let edits := (opened.flatMap (·.2)).filterMap Replied.edit?
      (reviseFrom t start stop outer (Transform.inInterior t inner transform) memory).result
          = .ok (⟨out, []⟩, last) ∧
        (outer.locateAll t d.scope.start d.scope.stop).result = .ok (opened.map (·.1)) ∧
        (∀ p ∈ opened, p.Found inner t) ∧
        Transform.Answered transform memory (opened.flatMap (·.2)) last ∧
        d.submitAll edits = { d with edits := edits } ∧
        (d.submitAll edits).digest? = some out ∧
        Patched t d.scope.stop d.scope.start ((opened.flatMap (·.2)).map Replied.patch) out) ∨
      ∃ halt, (reviseFrom t start stop outer (Transform.inInterior t inner transform)
          memory).result = .error halt ∧
        ((∃ pos, d.scope.start ≤ pos ∧ pos < d.scope.stop ∧ t.isBoundary pos = true ∧
            ((r.parse resolve slots t pos).result = .error halt ∨
              (r'.parse resolve' slots' t pos).result = .error halt)) ∨
          Transform.HaltsInside transform outer inner t d.scope.start d.scope.stop memory
            halt) := by
  intro outer d
  have houter : outer.recognizer.Sound := Rule.sound_parse resolve slots r
  have hsound : inner.recognizer.Sound := hinner ▸ Rule.sound_parse resolve' slots' r'
  cases hrevise :
      (reviseFrom t start stop outer (Transform.inInterior t inner transform) memory).result with
  | ok revised =>
      obtain ⟨o, last⟩ := revised
      obtain ⟨replied, hlocate, hanswered, hsequence, hrefusals, hpatched⟩ :=
        patched_of_reviseFrom houter hrevise
      obtain ⟨opened, hunfolded, hfound, hasked⟩ := exists_unfolded hsound hsilent hanswered
        hsequence (Draft.exists_interior_of_locateAll houter hlocate)
      have hflat := hunfolded.patched hpatched
      obtain ⟨hsubmit, out, hout, hpatched'⟩ :=
        Draft.digest?_submitAll_of_sequence (hunfolded.sequence hsequence)
      obtain rfl := hflat.unique hpatched'
      rw [hunfolded.refusals] at hrefusals
      refine .inl ⟨opened, o.text, last, ?_, ?_, hfound, hasked, hsubmit, hout, hflat⟩
      · rw [← hrefusals]
      · rw [hunfolded.map_fst]
        exact hlocate
  | error halt =>
      refine .inr ⟨halt, rfl, ?_⟩
      rcases error_of_reviseFrom houter hrevise with
        ⟨pos, hle, hlt, hpos, hparse⟩ | ⟨replied, b, later, next, hlocate, hanswered, hhalt⟩
      · exact .inl ⟨pos, hle, hlt, hpos, .inl hparse⟩
      -- the block at which it is cut short lies in the window, behind those before it
      have hinterior := Draft.exists_interior_of_locateAll houter hlocate
      obtain ⟨hbefore, mid, hbehind⟩ := (Draft.sequence_of_locateAll houter hlocate).split
      obtain ⟨opened, hunfolded, hfound, hasked⟩ := exists_unfolded hsound hsilent hanswered
        hbefore fun c hc => hinterior c (List.mem_append_left _ hc)
      obtain ⟨i, hi, hwithin⟩ := hinterior b (List.mem_append_right _ (List.mem_cons_self ..))
      have hb := (Draft.sequence_of_locateAll houter hlocate).within b
        (List.mem_append_right _ (List.mem_cons_self ..))
      cases hbehind with
      | cons hplaced _ =>
        rcases error_of_inInterior hsound hplaced hi hwithin hhalt with
          ⟨pos, hle, hlt, hpos, hparse⟩ | ⟨asked, c, rest, last, hlocate', hanswered', hhalt'⟩
        · have hstart : d.scope.start ≤ i.start := Nat.le_trans hb.le_start hwithin.le_start
          have hstop : i.stop ≤ d.scope.stop := Nat.le_trans hwithin.stop_le hb.stop_le
          rw [hinner] at hparse
          exact .inl ⟨pos, Nat.le_trans hstart hle, Nat.lt_of_lt_of_le hlt hstop, hpos,
            .inr hparse⟩
        · refine .inr ⟨opened, b, later, asked, c, rest, last, ?_, hfound, ⟨i, hi, hlocate'⟩,
            hasked.append hanswered', hhalt'⟩
          rw [hunfolded.map_fst]
          exact hlocate

/-- `reviseFrom_inInterior` for a block in parentheses with two lines that hold an inner construct each:
    the first is replaced and the second stays. -/
theorem reviseFrom_inInterior_parentheses :
    ∃ (opened : List Opened) (out : Text),
      (reviseFrom ['(', '\n', 'x', '\n', 'x', '\n', ')', '\n'] 0 8
          (.block (Rule.parse (fun _ => .undefined) 0 (.symbol ['('])) (.line [')']) none)
          (Transform.inInterior ['(', '\n', 'x', '\n', 'x', '\n', ')', '\n']
            (.line (Rule.parse (fun _ => .undefined) 0 (.symbol ['x'])) none)
            fun n _ => pure (⟨if n = 0 then some ['é'] else none, []⟩, n + 1)) 0).result
        = .ok (⟨out, []⟩, 2) ∧
      opened.length = 1 ∧
      ((Draft.ofWindow ['(', '\n', 'x', '\n', 'x', '\n', ')', '\n'] 0 8).submitAll
        ((opened.flatMap (·.2)).filterMap Replied.edit?)).digest? = some out ∧
      Patched ['(', '\n', 'x', '\n', 'x', '\n', ')', '\n'] 8 0
        ((opened.flatMap (·.2)).map Replied.patch) out := by
  have hsilent : Transform.Silent fun (n : Nat) (_ : Block) =>
      pure (⟨if n = 0 then some ['é'] else none, []⟩, n + 1) := by
    intro n b r next h
    obtain ⟨rfl, -⟩ := Prod.mk.inj (Except.ok.inj h)
    rfl
  rcases @reviseFrom_inInterior (fun _ => .undefined) (fun _ => .undefined) 0 0 (.symbol ['('])
      (.symbol ['x']) (.line (Rule.parse (fun _ => .undefined) 0 (.symbol ['x'])) none) rfl
      (.line [')']) none ['(', '\n', 'x', '\n', 'x', '\n', ')', '\n'] 0 8 Nat _ hsilent 0 with
    ⟨opened, out, last, hresult, hblocks, -, -, -, hdigest, hpatched⟩ | ⟨halt, herror, -⟩
  · have hlength : opened.length = 1 := by
      have := congrArg List.length (Except.ok.inj hblocks)
      rw [List.length_map] at this
      exact this.symm
    obtain ⟨houtcome, rfl⟩ := Prod.mk.inj (Except.ok.inj hresult)
    obtain ⟨rfl, -⟩ := Outcome.mk.inj houtcome
    exact ⟨opened, _, rfl, hlength, hdigest, hpatched⟩
  · cases herror

end Graft
