import Graft.Proofs.Regex.Pattern.Step

/-!
# `Graft.Proofs.Regex.Pattern.Runs` — whole patterns in front of a parenthesis

The reader goes through a pattern step by step. Two things may change in the course of a whole run
without changing what is read: groups around the pattern may be open (`Runs.within`), and a parenthesis
may stand behind it (`Runs.append`). A pattern that is read to its end in a group is also valid by itself,
unless it closes the group on its own (`Runs.of_within`).
-/

namespace Graft.Regex.Pattern

variable {r r' r'' : Reader} {t t' t'' : Text} {outer : List Frame}

section Engine

variable [Engine]

/-- Steps lead the reader from `r` in front of `t` to `r'` in front of `t'`. -/
inductive Runs : Reader → Text → Reader → Text → Prop
  | refl (r : Reader) (t : Text) : Runs r t r t
  | step {r r₁ r' : Reader} {t t₁ t' : Text} (h : step? r (r.flags.skip t) = some (r₁, t₁))
      (hrest : Runs r₁ t₁ r' t') : Runs r t r' t'

/-- Nothing is left to be read, and no group is open. -/
def Reader.Ends (r : Reader) (t : Text) : Prop :=
  r.flags.skip t = [] ∧ r.frames = []

/-- Some run comes to a closing parenthesis where no group is open. -/
def ClosesTooManyFrom (r : Reader) (t : Text) : Prop :=
  ∃ r' t' rest, Runs r t r' t' ∧ r'.flags.skip t' = ')' :: rest ∧ r'.frames = []

theorem step?_nil (r : Reader) : step? r [] = none := rfl

/-- What `step?` leaves is shorter than what it reads, so that the length of the pattern bounds the
    steps. -/
theorem step?_suffix {c : Char} {rest : Text} (h : step? r (c :: rest) = some (r', t')) :
    t' <:+ rest := by
  have hstep := step?_behind r c rest
  rw [h] at hstep
  generalize step? r (c :: (rest ++ [')'])) = o' at hstep
  rcases hstep with hstep | ⟨hnone, -⟩
  · cases hstep with
    | kept _ h => exact h
    | swallowed _ h => exact List.nil_suffix
  · cases hnone

/-- Every step takes something up, so that the bound of `read?` is enough. -/
theorem length_lt_of_step? (h : step? r (r.flags.skip t) = some (r', t')) : t'.length < t.length := by
  have hskip := r.flags.skip_suffix t
  cases hs : r.flags.skip t with
  | nil => rw [hs, step?_nil] at h; cases h
  | cons c rest =>
      rw [hs] at h hskip
      have := (step?_suffix h).length_le
      have := (tail_suffix hskip).2
      omega

theorem Runs.trans (h : Runs r t r' t') (h' : Runs r' t' r'' t'') : Runs r t r'' t'' := by
  induction h with
  | refl => exact h'
  | step h _ ih => exact .step h (ih h')

/-- `Runs` is deterministic: a run to the end passes everything that a run comes to. -/
theorem Runs.of_ends (h : Runs r t r' t') (hall : Runs r t r'' t'') (hends : r''.Ends t'') :
    Runs r' t' r'' t'' := by
  induction h with
  | refl => exact hall
  | step h _ ih =>
      cases hall with
      | refl =>
          rw [hends.1, step?_nil] at h
          cases h
      | step h' hall =>
          obtain ⟨rfl, rfl⟩ := Prod.mk.inj (Option.some.inj (h.symm.trans h'))
          exact ih hall

/-! ## Runs and results -/

theorem read?_succ_of_step? {bound : Nat} (h : step? r (r.flags.skip t) = some (r', t')) :
    read? (bound + 1) r t = read? bound r' t' := by
  rw [read?]
  split
  next hskip => rw [hskip] at h; cases h
  next => rw [h]; rfl

/-- `read?` from any reader on the way has the same result. -/
theorem Runs.read?_eq {bound : Nat} (h : Runs r t r' t') (hbound : t.length < bound) :
    ∃ bound', t'.length < bound' ∧ read? bound r t = read? bound' r' t' := by
  induction h generalizing bound with
  | refl => exact ⟨bound, hbound, rfl⟩
  | step h _ ih =>
      obtain ⟨bound, rfl⟩ := Nat.exists_eq_succ_of_ne_zero (show bound ≠ 0 by omega)
      have := length_lt_of_step? h
      rw [Nat.succ_eq_add_one, read?_succ_of_step? h]
      exact ih (by omega)

/-- What is read was read in steps: `Runs` from the start to where the text `Ends`. -/
theorem exists_runs_of_read? {bound : Nat} {term : Term} (h : read? bound r t = some term) :
    ∃ r' t', Runs r t r' t' ∧ r'.Ends t' ∧ r'.whole = term := by
  induction bound generalizing r t with
  | zero => cases h
  | succ bound ih =>
      rw [read?] at h
      split at h
      next hskip =>
        split at h
        next hframes =>
          exact ⟨r, t, .refl r t, ⟨hskip, List.isEmpty_iff.mp hframes⟩, Option.some.inj h⟩
        next => cases h
      next =>
        obtain ⟨⟨r₁, t₁⟩, hstep, hread⟩ := Option.bind_eq_some_iff.mp h
        obtain ⟨r', t', hruns, hends⟩ := ih hread
        exact ⟨r', t', .step hstep hruns, hends⟩

/-- A run that `Ends` tells what `read?` reads. -/
theorem Runs.read?_eq_some {bound : Nat} (h : Runs r t r' t') (hends : r'.Ends t')
    (hbound : t.length < bound) : read? bound r t = some r'.whole := by
  obtain ⟨bound', hbound', heq⟩ := h.read?_eq hbound
  obtain ⟨bound', rfl⟩ := Nat.exists_eq_succ_of_ne_zero (show bound' ≠ 0 by omega)
  rw [heq, Nat.succ_eq_add_one, read?, hends.1]
  dsimp only
  rw [hends.2]
  rfl

/-- `read?` reads nothing where a run is stuck: no step is possible, and groups are open or something is
    left. -/
theorem Runs.read?_eq_none {bound : Nat} (h : Runs r t r' t') (hbound : t.length < bound)
    (hends : ¬ r'.Ends t') (hstep : step? r' (r'.flags.skip t') = none) : read? bound r t = none := by
  obtain ⟨bound', hbound', heq⟩ := h.read?_eq hbound
  rw [heq]
  cases hread : read? bound' r' t' with
  | none => rfl
  | some term =>
      obtain ⟨r'', t'', hruns, hends', -⟩ := exists_runs_of_read? hread
      cases hruns with
      | refl => exact absurd hends' hends
      | step h _ => rw [hstep] at h; cases h

end Engine

/-! ## Groups around the pattern -/

/-- The reader with further groups open, outside those that it knows of. -/
def Reader.within (r : Reader) (outer : List Frame) : Reader :=
  { r with frames := r.frames ++ outer }

@[simp] theorem Reader.within_flags (r : Reader) (outer : List Frame) :
    (r.within outer).flags = r.flags := rfl

@[simp] theorem Reader.within_frames (r : Reader) (outer : List Frame) :
    (r.within outer).frames = r.frames ++ outer := rfl

theorem repeat?_within (r : Reader) (outer : List Frame) (greedy : Bool) (least : Nat)
    (most : Option Nat) :
    (r.within outer).repeat? greedy least most =
      (r.repeat? greedy least most).map (·.within outer) := by
  obtain ⟨flags, frames, branches, items, groups, names⟩ := r
  cases items with
  | nil => rfl
  | cons item items => cases item <;> rfl

/-- Leaving a group goes alike with more groups outside, as long as there is one to leave. -/
theorem leave?_within (h : r.frames ≠ []) :
    (r.within outer).leave? = r.leave?.map (·.within outer) := by
  unfold Reader.leave?
  cases hframes : r.frames with
  | nil => exact absurd hframes h
  | cons frame frames =>
      simp only [Reader.within_frames, hframes]
      rfl

theorem enterNamed?_within (r : Reader) (outer : List Frame) (t : Text) :
    enterNamed? (r.within outer) t = (enterNamed? r t).map (Prod.map (·.within outer) id) := by
  unfold enterNamed?
  cases t.dropWhile (· ≠ '>') with
  | nil => rfl
  | cons c rest =>
      show (if _ then _ else _) = Option.map _ (if _ then _ else _)
      split <;> split <;> first | rfl | contradiction

theorem changeFlags?_within (r : Reader) (outer : List Frame)
    (x : (List (Char × Bool) × Char) × Text) :
    changeFlags? (r.within outer) x = (changeFlags? r x).map (Prod.map (·.within outer) id) := by
  unfold changeFlags?
  rw [Reader.within_flags]
  cases r.flags.change? x.1.1 with
  | none => rfl
  | some flags =>
      show (if _ then _ else if _ then _ else _) =
        Option.map _ (if _ then _ else if _ then _ else _)
      split
      · rfl
      · split <;> rfl

theorem openFlags?_within (r : Reader) (outer : List Frame) (t : Text) :
    openFlags? (r.within outer) t = (openFlags? r t).map (Prod.map (·.within outer) id) := by
  unfold openFlags?
  rw [funext (changeFlags?_within r outer)]
  exact Option.map_bind.symm

theorem openMarked?_within (r : Reader) (outer : List Frame) (t : Text) :
    openMarked? (r.within outer) t = (openMarked? r t).map (Prod.map (·.within outer) id) := by
  unfold openMarked?
  split
  all_goals first
    | rfl
    | exact enterNamed?_within r outer _
    | exact openFlags?_within r outer _

/-- Opening a group goes alike with more groups outside. -/
theorem openGroup?_within (r : Reader) (outer : List Frame) (t : Text) :
    openGroup? (r.within outer) t = (openGroup? r t).map (Prod.map (·.within outer) id) := by
  rw [openGroup?_eq, openGroup?_eq, Reader.within_flags]
  unfold openHere?
  split
  · exact openMarked?_within r outer _
  · rfl

theorem repeatAs?_within (r : Reader) (outer : List Frame) (least : Nat) (most : Option Nat)
    (x : Bool × Text) :
    repeatAs? (r.within outer) least most x =
      (repeatAs? r least most x).map (Prod.map (·.within outer) id) := by
  unfold repeatAs?
  rw [repeat?_within]
  cases r.repeat? x.1 least most <;> rfl

variable [Engine]

/-- `step?` with further frames outside. It sees the innermost one only, and that when it comes to a
    parenthesis. -/
theorem step?_within (outer : List Frame) (h : t.head? = some ')' → r.frames ≠ []) :
    step? (r.within outer) t = (step? r t).map (Prod.map (·.within outer) id) := by
  cases t with
  | nil => rfl
  | cons c rest =>
  by_cases hbrace : c = '\x7b'
  · subst hbrace
    rw [step?_brace, step?_brace, Reader.within_flags]
    cases (readBounds? r.flags rest).map together with
    | none => rfl
    | some x => exact repeatAs?_within r outer _ _ _
  unfold step?
  dsimp only
  split
  · exact openGroup?_within r outer rest
  · rw [leave?_within (h rfl)]
    cases r.leave? <;> rfl
  · rfl
  · rw [Reader.within_flags]
    cases readBrackets? r.flags rest <;> rfl
  · exact repeatAs?_within r outer _ _ _
  · exact repeatAs?_within r outer _ _ _
  · exact repeatAs?_within r outer _ _ _
  · exact absurd rfl hbrace
  · rw [Reader.within_flags]
    cases r.flags.dot? <;> rfl
  · rfl
  · rfl
  · rw [Reader.within_flags]
    cases readEscape? r.flags rest <;> rfl
  · rfl

/-- `step?` closes no group where none is open. -/
theorem frames_ne_nil_of_step? (h : step? r t = some (r', t')) (hclose : t.head? = some ')') :
    r.frames ≠ [] := by
  intro hframes
  obtain ⟨rest, rfl⟩ := List.head?_eq_some_iff.mp hclose
  have hleave : r.leave? = none := by
    unfold Reader.leave?
    rw [hframes]
  have hstep : step? r (')' :: rest) = r.leave?.map (·, rest) := rfl
  rw [hstep, hleave] at h
  cases h

/-- The run of `step?_within`: groups around a pattern do not change how it is read. -/
theorem Runs.within (h : Runs r t r' t') (outer : List Frame) :
    Runs (r.within outer) t (r'.within outer) t' := by
  induction h with
  | refl => exact .refl _ _
  | step h _ ih =>
      refine .step ?_ ih
      rw [Reader.within_flags, step?_within outer (frames_ne_nil_of_step? h), h]
      rfl

/-! ## A parenthesis behind the pattern -/

theorem Runs.of_nil (h : Runs r [] r' t') : r' = r ∧ t' = [] := by
  cases h with
  | refl => exact ⟨rfl, rfl⟩
  | step h _ =>
      rw [Flags.skip_nil, step?_nil] at h
      cases h

/-- `step?_behind` for a step that succeeds without the parenthesis. -/
theorem step?_append (h : step? r (r.flags.skip t) = some (r', t')) :
    (t' <:+ t ∧ step? r (r.flags.skip (t ++ [')'])) = some (r', t' ++ [')'])) ∨
      (t' = [] ∧ step? r (r.flags.skip (t ++ [')'])) = some (r', []) ∧ Commented t) := by
  obtain ⟨s, hs, hskip, hskip'⟩ | ⟨hskip, -, -⟩ := r.flags.skip_cases t
  case inr => rw [hskip, step?_nil] at h; cases h
  rw [hskip] at h
  cases s with
  | nil => rw [step?_nil] at h; cases h
  | cons c rest =>
      obtain ⟨hrest, -⟩ := tail_suffix hs
      rw [hskip', List.cons_append]
      have hstep := step?_behind r c rest
      rw [h] at hstep
      generalize step? r (c :: (rest ++ [')'])) = o' at hstep
      rcases hstep with hstep | ⟨hnone, -⟩
      · cases hstep with
        | kept _ hsuffix => exact .inl ⟨hsuffix.trans hrest, rfl⟩
        | swallowed _ hcomment => exact .inr ⟨rfl, rfl, hcomment.of_suffix hrest⟩
      · cases hnone

/-- The run of `step?_append`: the last step may end with a comment that takes the parenthesis up. -/
theorem Runs.append (h : Runs r t r' t') :
    (t' <:+ t ∧ Runs r (t ++ [')']) r' (t' ++ [')'])) ∨
      (t' = [] ∧ Runs r (t ++ [')']) r' [] ∧ Commented t) := by
  induction h with
  | refl => exact .inl ⟨List.suffix_refl _, .refl _ _⟩
  | step h hrest ih =>
      rcases step?_append h with ⟨hsuffix, hstep⟩ | ⟨rfl, hstep, hcomment⟩
      · rcases ih with ⟨hsuffix', hruns⟩ | ⟨rfl, hruns, hcomment⟩
        · exact .inl ⟨hsuffix'.trans hsuffix, .step hstep hruns⟩
        · exact .inr ⟨rfl, .step hstep hruns, hcomment.of_suffix hsuffix⟩
      · obtain ⟨rfl, rfl⟩ := hrest.of_nil
        exact .inr ⟨rfl, .step hstep (.refl _ _), hcomment⟩

/-- Nothing `Ends` where nothing is left and a group is open. -/
theorem not_ends_of_runs_nil (houter : outer ≠ []) (h : Runs (r.within outer) [] r' t') :
    ¬ r'.Ends t' := by
  intro hends
  obtain ⟨rfl, rfl⟩ := h.of_nil
  exact houter (List.append_eq_nil_iff.mp hends.2).2

/-- The converse of `step?_within` and `step?_append` together, for a step in a group with the parenthesis
    behind the pattern. Either the pattern comes to its end, or it is about to close the group on its own,
    or the step is one of the pattern by itself; otherwise there is no step, or none after it. -/
theorem step?_of_within {r₁ : Reader} {t₁ : Text} (houter : outer ≠ [])
    (h : step? (r.within outer) (r.flags.skip (t ++ [')'])) = some (r₁, t₁)) :
    r.Ends t ∨ (∃ rest, r.flags.skip t = ')' :: rest ∧ r.frames = []) ∨
      (∃ r₂ t₂, step? r (r.flags.skip t) = some (r₂, t₂) ∧ r₁ = r₂.within outer ∧
        t₁ = t₂ ++ [')']) ∨
      ∀ r' t', Runs r₁ t₁ r' t' → ¬ r'.Ends t' := by
  obtain ⟨s, hs, hskip, hskip'⟩ | ⟨-, hskip', -⟩ := r.flags.skip_cases t
  case inr => rw [hskip', step?_nil] at h; cases h
  rw [hskip'] at h
  cases s with
  | nil =>
      by_cases hframes : r.frames = []
      · exact .inl ⟨hskip, hframes⟩
      · -- the parenthesis closes a group of the pattern, and the one around it is left open
        rw [step?_within outer fun _ => hframes] at h
        obtain ⟨⟨r₂, u⟩, hleave, heq⟩ := Option.map_eq_some_iff.mp h
        obtain ⟨rfl, rfl⟩ := Prod.mk.inj heq
        obtain rfl := List.suffix_nil.mp (step?_suffix hleave)
        exact .inr (.inr (.inr fun _ _ => not_ends_of_runs_nil houter))
  | cons c rest =>
      right
      by_cases hclose : c = ')' ∧ r.frames = []
      · obtain ⟨rfl, hframes⟩ := hclose
        exact .inl ⟨rest, hskip, hframes⟩
      right
      have hopen (hc : (c :: (rest ++ [')'])).head? = some ')') : r.frames ≠ [] :=
        fun hframes => hclose ⟨Option.some.inj hc, hframes⟩
      rw [List.cons_append, step?_within outer hopen] at h
      obtain ⟨⟨r₂, u⟩, hread, heq⟩ := Option.map_eq_some_iff.mp h
      obtain ⟨rfl, rfl⟩ := Prod.mk.inj heq
      have hstep := step?_behind r c rest
      rw [hread] at hstep
      rw [hskip]
      generalize step? r (c :: rest) = o at hstep ⊢
      rcases hstep with hstep | hbrace
      · cases hstep with
        | kept _ _ => exact .inl ⟨_, _, rfl, rfl, rfl⟩
        | swallowed _ _ => exact .inr fun _ _ => not_ends_of_runs_nil houter
        | used _ => exact .inr fun _ _ => not_ends_of_runs_nil houter
      · right
        intro r' t' hruns hends
        cases hruns with
        | refl => exact houter (List.append_eq_nil_iff.mp hends.2).2
        | step h _ =>
            have hnone : step? (r₂.within outer) (r₂.flags.skip u) = none :=
              hbrace.step?_eq_none (r₂.within_flags outer)
            cases hnone.symm.trans h

/-- The run of `step?_of_within`: what is read to its end in a group is read to its end by itself, unless
    it `ClosesTooManyFrom` its start. -/
theorem Runs.of_within (houter : outer ≠ []) (h : Runs (r.within outer) (t ++ [')']) r' t')
    (hends : r'.Ends t') :
    (∃ r₁ t₁, Runs r t r₁ t₁ ∧ r₁.Ends t₁) ∨ ClosesTooManyFrom r t := by
  -- by induction on the run in the group, while the pattern's own run keeps in step with it
  generalize hR : r.within outer = R, hT : t ++ [')'] = T at h
  induction h generalizing r t with
  | refl =>
      subst hR
      exact absurd (List.append_eq_nil_iff.mp hends.2).2 houter
  | step hstep hrest ih =>
      subst hR hT
      rcases step?_of_within houter hstep with
        hend | ⟨rest, hclose, hframes⟩ | ⟨r₂, t₂, hstep', rfl, rfl⟩ | hstuck
      · exact .inl ⟨r, t, .refl r t, hend⟩
      · exact .inr ⟨r, t, rest, .refl r t, hclose, hframes⟩
      · rcases ih hends rfl rfl with ⟨r₃, t₃, hruns, hend⟩ | ⟨r₃, t₃, rest, hruns, hclose⟩
        · exact .inl ⟨r₃, t₃, .step hstep' hruns, hend⟩
        · exact .inr ⟨r₃, t₃, rest, .step hstep' hruns, hclose⟩
      · exact absurd hends (hstuck _ _ hrest)

end Graft.Regex.Pattern
