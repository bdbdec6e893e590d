import Graft.Element
import Graft.Proofs.Text.Cut

/-!
# `Graft.Proofs.Element.Placed` — elements that lie where they say

Four positions make an extent exactly when they are in order and the text can be cut at each of them
(`Bounds.check_eq_ok_iff`); an extent made of other positions is invalid.

`Element.Sound` carries this through a whole tree of elements: at every depth an element has a place
in the text, and what it is made of lies in its span, from left to right and without overlap. The
builders get their parts as a `Row`, elements one after the other from one position to another, which
is all that is needed to place the element around them.
-/

namespace Graft

/-! ## Extents -/

/-- Bounds whose positions are in order and all of them cuts of the text. -/
structure Bounds.Fits (t : Text) (b : Bounds) : Prop where
  span_start_le : b.span.start ≤ b.start
  start_le_stop : b.start ≤ b.stop
  stop_le_span : b.stop ≤ b.span.stop
  boundary : ∀ p ∈ b.positions, t.isBoundary p = true

/-- `Bounds.check` tests fewer inequalities than `Fits` lists; the others follow. -/
theorem Bounds.check_eq_ok_iff {t : Text} {start stop : Nat} {span : Span} {b : Bounds} :
    check t start stop span = .ok b ↔ b = ⟨start, stop, span⟩ ∧ b.Fits t := by
  have hfind : ((⟨start, stop, span⟩ : Bounds).positions.find? fun p => !t.isBoundary p) = none ↔
      ∀ p ∈ (⟨start, stop, span⟩ : Bounds).positions, t.isBoundary p = true := by
    simp only [List.find?_eq_none, Bool.not_eq_true', Bool.not_eq_false]
  constructor
  · intro h
    unfold check at h
    split at h
    · cases h
    split at h
    · cases h
    split at h
    · cases h
    next hord _ hcover =>
      dsimp only at h
      split at h
      · cases h
      next hnone =>
        obtain rfl := Except.ok.inj h
        exact ⟨rfl, by dsimp only; omega, by dsimp only; omega, by dsimp only; omega,
          hfind.mp hnone⟩
  · rintro ⟨rfl, hfits⟩
    have hleft : span.start ≤ start := hfits.span_start_le
    have hord : start ≤ stop := hfits.start_le_stop
    have hright : stop ≤ span.stop := hfits.stop_le_span
    have hsize : span.stop ≤ t.size :=
      Text.le_size_of_isBoundary (hfits.boundary span.stop (by simp [positions]))
    rw [check, if_neg (by omega), if_neg (by omega), if_neg (by omega)]
    dsimp only
    rw [hfind.mpr hfits.boundary]

namespace Extent

/-- An extent with a place in the text: its positions are in order, within the text, and cuts of it. -/
structure Placed (t : Text) (e : Extent) : Prop where
  valid : e.isValid = true
  span_start_le : e.span.start ≤ e.start
  start_le_stop : e.start ≤ e.stop
  stop_le_span : e.stop ≤ e.span.stop
  span_stop_le : e.span.stop ≤ t.size
  span_start_boundary : t.isBoundary e.span.start = true
  start_boundary : t.isBoundary e.start = true
  stop_boundary : t.isBoundary e.stop = true
  span_stop_boundary : t.isBoundary e.span.stop = true

theorem Placed.start_le_span_stop {t : Text} {e : Extent} (h : e.Placed t) :
    e.start ≤ e.span.stop :=
  Nat.le_trans h.start_le_stop h.stop_le_span

theorem Placed.span_start_le_stop {t : Text} {e : Extent} (h : e.Placed t) :
    e.span.start ≤ e.span.stop :=
  Nat.le_trans h.span_start_le h.start_le_span_stop

theorem Placed.fits {t : Text} {e : Extent} (h : e.Placed t) :
    Bounds.Fits t ⟨e.start, e.stop, e.span⟩ where
  span_start_le := h.span_start_le
  start_le_stop := h.start_le_stop
  stop_le_span := h.stop_le_span
  boundary := by
    simp [Bounds.positions, h.span_start_boundary, h.start_boundary, h.stop_boundary,
      h.span_stop_boundary]

theorem placed_of_fits {t : Text} {b : Bounds} (h : b.Fits t) : Placed t ⟨some b⟩ where
  valid := rfl
  span_start_le := h.span_start_le
  start_le_stop := h.start_le_stop
  stop_le_span := h.stop_le_span
  span_stop_le := Text.le_size_of_isBoundary (h.boundary b.span.stop (by simp [Bounds.positions]))
  span_start_boundary := h.boundary b.span.start (by simp [Bounds.positions])
  start_boundary := h.boundary b.start (by simp [Bounds.positions])
  stop_boundary := h.boundary b.stop (by simp [Bounds.positions])
  span_stop_boundary := h.boundary b.span.stop (by simp [Bounds.positions])

/-- Where the positions `Fits`, `ofRange` makes the extent and notes nothing. -/
theorem ofRange_of_fits {t : Text} {start stop : Nat} {span : Span}
    (h : Bounds.Fits t ⟨start, stop, span⟩) :
    ofRange t start stop span = pure ⟨some ⟨start, stop, span⟩⟩ := by
  rw [ofRange, Bounds.check_eq_ok_iff.mpr ⟨rfl, h⟩]

/-- What `ofRange` makes of positions that `Fits`, without a look at its notes. -/
theorem eq_of_ofRange {t : Text} {start stop : Nat} {span : Span} {e : Extent}
    (h : (ofRange t start stop span).result = .ok e) (hfits : Bounds.Fits t ⟨start, stop, span⟩) :
    e = ⟨some ⟨start, stop, span⟩⟩ := by
  rw [ofRange, Bounds.check_eq_ok_iff.mpr ⟨rfl, hfits⟩] at h
  exact (Except.ok.inj h).symm

/-- `ofRange` never fails: positions that do not `Fits` make `invalid`. -/
theorem eq_invalid_of_ofRange {t : Text} {start stop : Nat} {span : Span} {e : Extent}
    (h : (ofRange t start stop span).result = .ok e)
    (hfits : ¬ Bounds.Fits t ⟨start, stop, span⟩) : e = invalid := by
  unfold ofRange at h
  split at h
  next b hb =>
    obtain ⟨rfl, hb⟩ := Bounds.check_eq_ok_iff.mp hb
    exact absurd hb hfits
  next => exact (Except.ok.inj h).symm

/-- A valid result of `ofRange` has exactly the positions that it was given. -/
theorem eq_of_ofRange_of_isValid {t : Text} {start stop : Nat} {span : Span} {e : Extent}
    (h : (ofRange t start stop span).result = .ok e) (hvalid : e.isValid = true) :
    e = ⟨some ⟨start, stop, span⟩⟩ := by
  by_cases hfits : Bounds.Fits t ⟨start, stop, span⟩
  · exact eq_of_ofRange h hfits
  · rw [eq_invalid_of_ofRange h hfits] at hvalid
    cases hvalid

end Extent

/-! ## Trees of elements -/

/-- Spans from left to right, each starting at or after the end of the one before, between two
    positions. -/
def Span.Chain : Nat → List Span → Nat → Prop
  | lo, [], hi => lo ≤ hi
  | lo, s :: rest, hi => lo ≤ s.start ∧ Chain s.stop rest hi

namespace Element

/-- What an element is directly made of. A name and its arguments count as elements of their own. -/
def parts : Element → List Element
  | join _ items => items
  | list _ items _ => items
  | group _ slots => slots.filterMap id
  | typeName _ name => [basic name]
  | genericName _ name arguments items trailing => [basic name, list arguments items trailing]
  | _ => []

/-- An element that has a place in the text, is made of parts that lie in order within its span, and
    whose parts are sound in turn. -/
inductive Sound (t : Text) : Element → Prop
  | intro {e : Element} (placed : e.extent.Placed t)
      (chain : Span.Chain e.span.start (e.parts.map span) e.span.stop)
      (parts : ∀ p ∈ e.parts, Sound t p) : Sound t e

variable {t : Text} {e : Element}

theorem Sound.placed (h : e.Sound t) : e.extent.Placed t := by
  cases h with
  | intro placed _ _ => exact placed

theorem Sound.chain (h : e.Sound t) : Span.Chain e.span.start (e.parts.map span) e.span.stop := by
  cases h with
  | intro _ chain _ => exact chain

theorem Sound.parts (h : e.Sound t) : ∀ p ∈ e.parts, p.Sound t := by
  cases h with
  | intro _ _ parts => exact parts

/-! ## Rows -/

/-- Sound elements one after the other, from a position to where the last of them ends. -/
inductive Row (t : Text) : Nat → List Element → Nat → Prop
  | nil {pos : Nat} (hpos : t.isBoundary pos = true) : Row t pos [] pos
  | cons {pos stop : Nat} {e : Element} {rest : List Element} (hle : pos ≤ e.span.start)
      (hsound : e.Sound t) (hrest : Row t e.span.stop rest stop) : Row t pos (e :: rest) stop

namespace Row

variable {pos stop : Nat} {items : List Element}

theorem stop_boundary (h : Row t pos items stop) : t.isBoundary stop = true := by
  induction h with
  | nil hpos => exact hpos
  | cons _ _ _ ih => exact ih

theorem le (h : Row t pos items stop) : pos ≤ stop := by
  induction h with
  | nil => exact Nat.le_refl _
  | cons hle hsound _ ih =>
      exact Nat.le_trans hle (Nat.le_trans hsound.placed.span_start_le_stop ih)

theorem sound (h : Row t pos items stop) : ∀ e ∈ items, e.Sound t := by
  induction h with
  | nil => simp
  | cons _ hsound _ ih =>
      intro e he
      rcases List.mem_cons.mp he with rfl | he
      · exact hsound
      · exact ih e he

theorem head {first : Element} (h : Row t pos items stop) (hfirst : items.head? = some first) :
    pos ≤ first.span.start ∧ first.Sound t := by
  cases h with
  | nil => cases hfirst
  | cons hle hsound _ =>
      obtain rfl := Option.some.inj hfirst
      exact ⟨hle, hsound⟩

theorem chain {lo hi : Nat} (h : Row t pos items stop) (hlo : lo ≤ pos) (hhi : stop ≤ hi) :
    Span.Chain lo (items.map span) hi := by
  induction h generalizing lo with
  | nil => exact Nat.le_trans hlo hhi
  | cons hpos _ _ ih => exact ⟨Nat.le_trans hlo hpos, ih (Nat.le_refl _) hhi⟩

theorem snoc (h : Row t pos items stop) (hle : stop ≤ e.span.start) (he : e.Sound t) :
    Row t pos (items ++ [e]) e.span.stop := by
  induction h with
  | nil => exact .cons hle he (.nil he.placed.span_stop_boundary)
  | cons hpos hsound _ ih => exact .cons hpos hsound (ih hle)

/-- From the start of the first element of a `Row` to the end of its last there is a stretch between two
    cuts. The builders take it as the content of the element around the row. -/
theorem ends {first last : Element} (h : Row t pos items stop) (hfirst : items.head? = some first)
    (hlast : items.getLast? = some last) :
    pos ≤ first.start ∧ first.start ≤ last.stop ∧ last.stop ≤ stop ∧
      t.isBoundary first.start = true ∧ t.isBoundary last.stop = true := by
  induction h generalizing first with
  | nil => cases hfirst
  | @cons pos stop e rest hpos hsound hrest ih =>
      obtain rfl : e = first := Option.some.inj hfirst
      have hp := hsound.placed
      have hstart := Nat.le_trans hpos hp.span_start_le
      cases rest with
      | nil =>
          obtain rfl : e = last := Option.some.inj hlast
          exact ⟨hstart, hp.start_le_stop, Nat.le_trans hp.stop_le_span hrest.le,
            hp.start_boundary, hp.stop_boundary⟩
      | cons second rest =>
          -- the last element is the last of the rest
          obtain ⟨hfrom, hto, hstop, -, hb⟩ := ih rfl (by simpa using hlast)
          refine ⟨hstart, ?_, hstop, hp.start_boundary, hb⟩
          exact Nat.le_trans hp.start_le_span_stop (Nat.le_trans hfrom hto)

end Row

end Element

end Graft
