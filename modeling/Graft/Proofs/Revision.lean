import Graft.Proofs.Draft.Digest
import Graft.Proofs.Locator.Scan
import Graft.Revision

/-!
# `Graft.Proofs.Revision` — a revision carries out every reply

A revision submits an edit for every construct that is to be replaced, and hopes for the best: were one
of these edits refused, the construct would silently stay as it is. None of them ever is. The constructs
lie in order within the window (`Block.Sequence`), with cuts of the text at their ends, so each edit
fits the window and comes after all the edits accepted before it (`submitAll_of_sequence`).

What a revision makes is therefore told by the replies alone: the window with each construct replaced
as its reply says, and the refusals that the replies hand on, in the order of the constructs
(`reviseFrom_patched`).
-/

namespace Graft

open Text (Patched)

/-- A construct and the reply about it. -/
abbrev Replied := Block × Reply

namespace Replied

/-- The edit that a reply asks for. -/
def edit? (a : Replied) : Option Edit :=
  a.2.replacement.map fun s => ⟨a.1.start, a.1.stop, s⟩

/-- What a reply does to the text of its construct. -/
def patch (a : Replied) : Text.Patch :=
  (⟨a.1.start, a.1.stop⟩, a.2.replacement)

/-- Replies without an `edit?` are the ones whose `patch` changes nothing. -/
theorem map_patch_filterMap_edit? (replied : List Replied) :
    (replied.filterMap edit?).map Edit.patch = (replied.map patch).filter (·.2.isSome) := by
  induction replied with
  | nil => rfl
  | cons a rest ih =>
      obtain ⟨b, r, refusals⟩ := a
      cases r with
      | none => exact ih
      | some s =>
          show Edit.patch ⟨b.start, b.stop, s⟩ :: (rest.filterMap edit?).map Edit.patch = _
          rw [ih]
          rfl

end Replied

/-- A transform that is asked about some constructs, one after the other: the replies, and how what it
    remembers goes from one state to another. -/
inductive Transform.Answered {σ : Type} (transform : Transform.Remembering σ) :
    σ → List Replied → σ → Prop
  | done {memory : σ} : Answered transform memory [] memory
  | reply {memory next last : σ} {b : Block} {r : Reply} {rest : List Replied}
      (hreply : (transform memory b).result = .ok (r, next))
      (hrest : Answered transform next rest last) : Answered transform memory ((b, r) :: rest) last

/-! ## Asking for replies -/

section

variable {σ : Type} {transform : Transform.Remembering σ} {blocks : List Block} {d d' : Draft}
  {sunk sunk' : List Refusal} {memory memory' : σ}

/-- One step of `applyReplies`: the edit of a reply is submitted, its refusals are collected, and the next
    reply is asked for. -/
theorem result_applyReplies_cons (b : Block) (rest : List Block) :
    (applyReplies transform (b :: rest) d sunk memory).result
      = (transform memory b).result.bind fun a =>
          (applyReplies transform rest (d.submitAll (Replied.edit? (b, a.1)).toList)
            (sunk ++ a.1.refusals) a.2).result := by
  rw [applyReplies, Traced.result_bind]
  congr 1
  funext ⟨⟨replacement, refusals⟩, next⟩
  cases replacement with
  | none => rfl
  | some s => exact Traced.result_bind _ _

/-- The run of `applyReplies`: all that it does with a draft is to submit the edits of the replies that
    the transform has `Answered`. -/
theorem answered_of_applyReplies
    (h : (applyReplies transform blocks d sunk memory).result = .ok (d', sunk', memory')) :
    ∃ replied : List Replied, replied.map (·.1) = blocks ∧
      Transform.Answered transform memory replied memory' ∧
      sunk' = sunk ++ replied.flatMap (·.2.refusals) ∧
      d' = d.submitAll (replied.filterMap Replied.edit?) := by
  induction blocks generalizing d sunk memory with
  | nil =>
      cases h
      exact ⟨[], rfl, .done, by simp, rfl⟩
  | cons b rest ih =>
      rw [result_applyReplies_cons] at h
      rcases hreply : (transform memory b).result with halt | ⟨r, next⟩
      · rw [hreply] at h
        cases h
      rw [hreply] at h
      obtain ⟨replied, hblocks, hanswered, hsunk, hd⟩ := ih h
      refine ⟨(b, r) :: replied, ?_, .reply hreply hanswered, ?_, ?_⟩
      · rw [List.map_cons, hblocks]
      · rw [hsunk, List.flatMap_cons, List.append_assoc]
      · rw [hd, Draft.submitAll, Draft.submitAll, Draft.submitAll, ← List.foldl_append]
        cases hedit : Replied.edit? (b, r) with
        | none => rw [List.filterMap_cons_none hedit]; rfl
        | some e => rw [List.filterMap_cons_some hedit]; rfl

/-- `applyReplies` halts only with the transform, at one of the constructs. Those in front were
    `Answered`. -/
theorem error_of_applyReplies {halt : Halt}
    (h : (applyReplies transform blocks d sunk memory).result = .error halt) :
    ∃ (replied : List Replied) (b : Block) (rest : List Block) (next : σ),
      blocks = replied.map (·.1) ++ b :: rest ∧ Transform.Answered transform memory replied next ∧
      (transform next b).result = .error halt := by
  induction blocks generalizing d sunk memory with
  | nil => cases h
  | cons b rest ih =>
      rw [result_applyReplies_cons] at h
      rcases hreply : (transform memory b).result with halt' | ⟨r, next⟩
      · rw [hreply] at h
        obtain rfl := Except.error.inj h
        exact ⟨[], b, rest, memory, rfl, .done, hreply⟩
      rw [hreply] at h
      obtain ⟨replied, b', rest', last, rfl, hanswered, herror⟩ := ih h
      exact ⟨(b, r) :: replied, b', rest', last, rfl, .reply hreply hanswered, herror⟩

end

/-! ## Submitting the edits -/

/-- The `edit?` of a reply lies where its construct does, hence `Within` the range of the sequence. -/
theorem Replied.within_edits {t : Text} {lo hi : Nat} {replied : List Replied}
    (h : Block.Sequence t hi lo (replied.map (·.1))) :
    ∀ e ∈ replied.filterMap edit?, e.span.Within t lo hi := by
  intro e he
  obtain ⟨a, ha, hedit⟩ := List.mem_filterMap.mp he
  obtain ⟨s, -, rfl⟩ := Option.map_eq_some_iff.mp hedit
  exact h.within a.1 (List.mem_map_of_mem ha)

/-- The edits for a `Block.Sequence` are in order and apart. -/
theorem Replied.pairwise_edits {t : Text} {lo hi : Nat} {replied : List Replied}
    (h : Block.Sequence t hi lo (replied.map (·.1))) :
    (replied.filterMap edit?).Pairwise (·.stop ≤ ·.start) := by
  refine List.pairwise_filterMap.mpr ((List.pairwise_map.mp h.pairwise).imp ?_)
  intro a b hab e he f hf
  obtain ⟨s, -, rfl⟩ := Option.map_eq_some_iff.mp he
  obtain ⟨s', -, rfl⟩ := Option.map_eq_some_iff.mp hf
  exact hab

/-- `submitAll` accepts all edits for a `Block.Sequence`, on top of edits that lie in front of it, by
    `submitAll_of_apart`. -/
theorem Draft.submitAll_of_sequence {replied : List Replied} {lo : Nat} {d : Draft}
    (h : Block.Sequence d.text d.scope.stop lo (replied.map (·.1))) (hlo : d.scope.start ≤ lo)
    (hbefore : ∀ e ∈ d.edits, e.stop ≤ lo) :
    d.submitAll (replied.filterMap Replied.edit?)
      = { d with edits := d.edits ++ replied.filterMap Replied.edit? } := by
  have hwithin := Replied.within_edits h
  refine submitAll_of_apart (fun e he => (hwithin e he).mono hlo (Nat.le_refl _)) ?_ ?_
  · intro a ha e he
    exact Edit.not_conflictsWith_of_le (Nat.le_trans (hbefore a ha) (hwithin e he).le_start)
      (hwithin e he).start_le_stop
  · exact (Replied.pairwise_edits h).imp_of_mem fun _ he hle =>
      Edit.not_conflictsWith_of_le hle (hwithin _ he).start_le_stop

/-- The `digest?` of edits for a `Block.Sequence` is the `Patched` window, where the list of patches also
    holds the constructs that stay. `inOrder` leaves the edits as they are. -/
theorem Draft.digest?_of_sequence {replied : List Replied} {d : Draft} (hd : d.Coherent)
    (h : Block.Sequence d.text d.scope.stop d.scope.start (replied.map (·.1)))
    (hedits : d.edits = replied.filterMap Replied.edit?) :
    ∃ out, d.digest? = some out ∧
      Patched d.text d.scope.stop d.scope.start (replied.map Replied.patch) out := by
  have hwithin : ∀ a ∈ replied, Span.Within d.text d.scope.start d.scope.stop a.patch.1 :=
    fun a ha => h.within a.1 (List.mem_map_of_mem ha)
  have hpairwise : replied.Pairwise fun a b => a.patch.1.stop ≤ b.patch.1.start :=
    List.pairwise_map.mp h.pairwise
  obtain ⟨out, hout⟩ : ∃ out, Patched d.text d.scope.stop d.scope.start
      (replied.map Replied.patch) out := by
    apply Text.exists_patched hd.scope_start_boundary hd.scope_stop_boundary hd.scope_le
    · intro p hp
      obtain ⟨a, ha, rfl⟩ := List.mem_map.mp hp
      exact hwithin a ha
    · exact List.pairwise_map.mpr hpairwise
  have hordered : (replied.filterMap Replied.edit?).Pairwise (·.notAfter · = true) := by
    refine (Replied.pairwise_edits h).imp_of_mem fun {a b} ha hb hle => ?_
    have hfirst : a.start ≤ a.stop := (Replied.within_edits h a ha).start_le_stop
    have hsecond : b.start ≤ b.stop := (Replied.within_edits h b hb).start_le_stop
    rw [Edit.notAfter_iff]
    omega
  -- constructs that stay as they are come without an edit
  refine ⟨out, ?_, hout⟩
  rw [digest?, hedits, Edit.inOrder_of_pairwise hordered]
  apply splice?_of_patched
  rw [Replied.map_patch_filterMap_edit?]
  exact hout.changes

/-! ## Revisions -/

section

variable {t : Text} {start stop : Nat} {l : Locator} {σ : Type}
  {transform : Transform.Remembering σ} {memory : σ}

/-- What `locateAll` finds in the window of a draft is a `Block.Sequence` there. -/
theorem Draft.sequence_of_locateAll {blocks : List Block} (hl : l.recognizer.Sound)
    (h : (l.locateAll t (ofWindow t start stop).scope.start (ofWindow t start stop).scope.stop).result
      = .ok blocks) :
    Block.Sequence t (ofWindow t start stop).scope.stop (ofWindow t start stop).scope.start
      blocks := by
  have hd := coherent_ofWindow t start stop
  have hstart : t.isBoundary (ofWindow t start stop).scope.start = true := hd.scope_start_boundary
  have hsize : (ofWindow t start stop).scope.stop ≤ t.size :=
    Text.le_size_of_isBoundary hd.scope_stop_boundary
  have hscan := Locator.scanned_of_scan hl (Nat.min_le_right _ _) (Nat.le_refl _) hstart h
  have hsequence := hscan.sequence hl (Nat.min_le_right _ _) hstart
  rwa [Nat.min_eq_left hsize] at hsequence

/-- `submitAll_of_sequence` and `digest?_of_sequence` for a draft that starts from `ofWindow`. -/
theorem Draft.digest?_submitAll_of_sequence {replied : List Replied}
    (h : Block.Sequence t (ofWindow t start stop).scope.stop (ofWindow t start stop).scope.start
      (replied.map (·.1))) :
    (ofWindow t start stop).submitAll (replied.filterMap Replied.edit?)
        = { ofWindow t start stop with edits := replied.filterMap Replied.edit? } ∧
      ∃ out, ((ofWindow t start stop).submitAll (replied.filterMap Replied.edit?)).digest?
          = some out ∧
        Patched t (ofWindow t start stop).scope.stop (ofWindow t start stop).scope.start
          (replied.map Replied.patch) out := by
  have hsubmit := submitAll_of_sequence (d := ofWindow t start stop) h (Nat.le_refl _) (by simp)
  have hcoherent := (coherent_ofWindow t start stop).submitAll (replied.filterMap Replied.edit?)
  rw [hsubmit] at hcoherent ⊢
  exact ⟨rfl, digest?_of_sequence hcoherent h rfl⟩

/-- `reviseFrom` that does not halt asks for a reply about every construct, and replaces the constructs as
    the replies say. -/
theorem patched_of_reviseFrom {o : Outcome} {last : σ} (hl : l.recognizer.Sound)
    (h : (reviseFrom t start stop l transform memory).result = .ok (o, last)) :
    let scope := (Draft.ofWindow t start stop).scope
    ∃ replied : List Replied,
      (l.locateAll t scope.start scope.stop).result = .ok (replied.map (·.1)) ∧
        Transform.Answered transform memory replied last ∧
        Block.Sequence t scope.stop scope.start (replied.map (·.1)) ∧
        o.refusals = replied.flatMap (·.2.refusals) ∧
        Patched t scope.stop scope.start (replied.map Replied.patch) o.text := by
  intro scope
  obtain ⟨blocks, hlocate, h⟩ := Traced.result_bind_eq_ok_iff.mp h
  obtain ⟨⟨d, sunk, memory'⟩, happly, h⟩ := Traced.result_bind_eq_ok_iff.mp h
  obtain ⟨text, htext, h⟩ := Traced.result_bind_eq_ok_iff.mp h
  obtain ⟨rfl, rfl⟩ := Prod.mk.inj (Except.ok.inj h)
  obtain ⟨replied, rfl, hanswered, rfl, rfl⟩ := answered_of_applyReplies happly
  have hsequence := Draft.sequence_of_locateAll hl hlocate
  obtain ⟨hsubmit, out, hout, hpatched⟩ := Draft.digest?_submitAll_of_sequence hsequence
  rw [hout] at htext
  obtain rfl := Except.ok.inj htext
  exact ⟨replied, hlocate, hanswered, hsequence, by simp [hsubmit], hpatched⟩

/-- `reviseFrom` halts only with its locator, or with its transform at one of the constructs: the draft
    and its digest always go through. -/
theorem error_of_reviseFrom {halt : Halt} (hl : l.recognizer.Sound)
    (h : (reviseFrom t start stop l transform memory).result = .error halt) :
    let scope := (Draft.ofWindow t start stop).scope
    (∃ pos, scope.start ≤ pos ∧ pos < scope.stop ∧ t.isBoundary pos = true ∧
        (l.recognizer t pos).result = .error halt) ∨
      ∃ (replied : List Replied) (b : Block) (rest : List Block) (next : σ),
        (l.locateAll t scope.start scope.stop).result = .ok (replied.map (·.1) ++ b :: rest) ∧
          Transform.Answered transform memory replied next ∧
          (transform next b).result = .error halt := by
  intro scope
  have hd := Draft.coherent_ofWindow t start stop
  rcases Traced.result_bind_eq_error_iff.mp h with hlocate | ⟨blocks, hlocate, h⟩
  · obtain ⟨pos, hle, hlt, hpos, hparse⟩ :=
      Locator.error_of_scan hl (Nat.min_le_right _ _) hd.scope_start_boundary hlocate
    exact .inl ⟨pos, hle, Nat.lt_of_lt_of_le hlt (Nat.min_le_left _ _), hpos, hparse⟩
  rcases Traced.result_bind_eq_error_iff.mp h with happly | ⟨⟨d, sunk, memory'⟩, happly, h⟩
  · obtain ⟨replied, b, rest, next, rfl, hanswered, hhalt⟩ := error_of_applyReplies happly
    exact .inr ⟨replied, b, rest, next, hlocate, hanswered, hhalt⟩
  · -- the digest of what the replies ask for exists
    obtain ⟨replied, rfl, -, -, rfl⟩ := answered_of_applyReplies happly
    obtain ⟨-, out, hout, -⟩ :=
      Draft.digest?_submitAll_of_sequence (Draft.sequence_of_locateAll hl hlocate)
    dsimp only at h
    rw [hout] at h
    cases h

end

/-- **Revisions.** `reviseFrom` for a locator that goes by a rule, over any window and with any transform.
    Unless it halts, every construct that is `Scanned` is replaced as its reply says, all else in the
    window is kept (`Patched`), and the refusals are those that the replies hand on: the revision itself
    adds none. It halts only where the rule does, at some position of the window, or where the transform
    does, at a construct. -/
theorem reviseFrom_patched {resolve : Slot → Rule.Target} {slots : Nat} {r : Rule} {l : Locator}
    (hl : l.recognizer = r.parse resolve slots) (t : Text) (start stop : Nat) {σ : Type}
    (transform : Transform.Remembering σ) (memory : σ) :
    let scope := (Draft.ofWindow t start stop).scope
    (∃ (replied : List Replied) (out : Text) (last : σ),
      (reviseFrom t start stop l transform memory).result
          = .ok (⟨out, replied.flatMap (·.2.refusals)⟩, last) ∧
        (l.locateAll t scope.start scope.stop).result = .ok (replied.map (·.1)) ∧
        Transform.Answered transform memory replied last ∧
        Patched t scope.stop scope.start (replied.map Replied.patch) out) ∨
      ∃ halt, (reviseFrom t start stop l transform memory).result = .error halt ∧
        ((∃ pos, scope.start ≤ pos ∧ pos < scope.stop ∧ t.isBoundary pos = true ∧
            (r.parse resolve slots t pos).result = .error halt) ∨
          ∃ (replied : List Replied) (b : Block) (rest : List Block) (next : σ),
            (l.locateAll t scope.start scope.stop).result
                = .ok (replied.map (·.1) ++ b :: rest) ∧
              Transform.Answered transform memory replied next ∧
              (transform next b).result = .error halt) := by
  intro scope
  have hd := Draft.coherent_ofWindow t start stop
  have hsize : scope.stop ≤ t.size := Text.le_size_of_isBoundary hd.scope_stop_boundary
  have hsound : l.recognizer.Sound := hl ▸ Rule.sound_parse resolve slots r
  have hmin : min scope.stop t.size ≤ t.size := Nat.min_le_right _ _
  have hmin' : min scope.stop t.size = scope.stop := Nat.min_eq_left hsize
  cases hlocate : (l.locateAll t scope.start scope.stop).result with
  | error halt =>
      obtain ⟨pos, hle, hlt, hpos, hparse⟩ :=
        Locator.error_of_scan hsound hmin hd.scope_start_boundary hlocate
      rw [hl] at hparse
      rw [hmin'] at hlt
      exact .inr ⟨halt, Traced.result_bind_eq_error_iff.mpr (.inl hlocate),
        .inl ⟨pos, hle, hlt, hpos, hparse⟩⟩
  | ok blocks =>
      have hsequence : Block.Sequence t scope.stop scope.start blocks := by
        have hscan := Locator.scanned_of_scan hsound hmin (Nat.le_refl _)
          hd.scope_start_boundary hlocate
        rw [← hmin']
        exact hscan.sequence hsound hmin hd.scope_start_boundary
      cases happly :
          (applyReplies transform blocks (Draft.ofWindow t start stop) [] memory).result with
      | error halt =>
          obtain ⟨replied, b, rest, next, rfl, hanswered, hhalt⟩ := error_of_applyReplies happly
          refine .inr ⟨halt, ?_, .inr ⟨replied, b, rest, next, rfl, hanswered, hhalt⟩⟩
          refine Traced.result_bind_eq_error_iff.mpr (.inr ⟨_, hlocate, ?_⟩)
          exact Traced.result_bind_eq_error_iff.mpr (.inl happly)
      | ok applied =>
          obtain ⟨d, sunk, last⟩ := applied
          obtain ⟨replied, rfl, hanswered, rfl, rfl⟩ := answered_of_applyReplies happly
          have hsubmit := Draft.submitAll_of_sequence (d := Draft.ofWindow t start stop) hsequence
            (Nat.le_refl _) (by simp)
          have hcoherent := hd.submitAll (replied.filterMap Replied.edit?)
          rw [hsubmit] at hcoherent
          obtain ⟨out, hout, hpatched⟩ := Draft.digest?_of_sequence hcoherent hsequence rfl
          refine .inl ⟨replied, out, last, ?_, rfl, hanswered, hpatched⟩
          refine Traced.result_bind_eq_ok_iff.mpr ⟨_, hlocate, ?_⟩
          refine Traced.result_bind_eq_ok_iff.mpr ⟨_, happly, ?_⟩
          dsimp only
          rw [hsubmit, hout]
          simp [Traced.ofSlice]

/-- `reviseFrom_patched` for two blocks in parentheses. The first one gets a new text and the second one
    stays; the window that is asked for ends inside the last character. -/
theorem reviseFrom_patched_parentheses :
    ∃ (replied : List Replied) (out : Text),
      (reviseFrom ['(', '\n', ')', '\n', '(', '\n', ')', '\n', 'é'] 0 9
          (.block (Rule.parse (fun _ => .undefined) 0 (.symbol ['('])) (.line [')']) none)
          (fun n _ => pure (⟨if n = 0 then some ['x'] else none, []⟩, n + 1)) 0).result
        = .ok (⟨out, []⟩, 2) ∧
      replied.length = 2 ∧
      Patched ['(', '\n', ')', '\n', '(', '\n', ')', '\n', 'é'] 8 0
        (replied.map Replied.patch) out := by
  rcases reviseFrom_patched (l := .block (Rule.parse (fun _ => .undefined) 0 (.symbol ['(']))
      (.line [')']) none) rfl ['(', '\n', ')', '\n', '(', '\n', ')', '\n', 'é'] 0 9
      (fun n _ => pure (⟨if n = 0 then some ['x'] else none, []⟩, n + 1)) 0 with
    ⟨replied, out, last, hresult, hblocks, -, hpatched⟩ | ⟨halt, herror, -⟩
  · have hlength : replied.length = 2 := by
      have := congrArg List.length (Except.ok.inj hblocks)
      rw [List.length_map] at this
      exact this.symm
    obtain ⟨houtcome, rfl⟩ := Prod.mk.inj (Except.ok.inj hresult)
    obtain ⟨rfl, -⟩ := Outcome.mk.inj houtcome
    exact ⟨replied, _, rfl, hlength, hpatched⟩
  · cases herror

end Graft
