import Mathlib.Data.List.TakeWhile
import Graft.Proofs.Recognizer.Name

/-!
# `Graft.Proofs.Recognizer.Numeral` — which numbers are read

A number is a run of decimal digits of any script, perhaps with a minus before it and with a dot and a
further run of digits behind it (`Token.Numeral`). It is read where it can go no further, and keeps its
characters (`result_numeral`): as an integer without a dot, and as a fraction if it has one. Where neither a
digit nor a minus with a digit behind it comes next there is no number (`result_number_none`).

The end of a number is found from the groups that took part. The dot and the digits behind it are left out
together, so that it is the end of the match in either case.
-/

namespace Graft

namespace Token

open Regex (Matcher)
open Regex.Matcher (perhaps)

variable {s more lead : Text} {x : Regex.Cursor}

/-! ## Numbers in a text -/

/-- A decimal digit of any script comes first. -/
def StartsDigits (s : Text) : Prop :=
  ∃ c, s.head? = some c ∧ Unicode.isDecimalDigit c = true

/-- A minus, or nothing. -/
def IsSign (s : Text) : Prop :=
  s = [] ∨ s = ['-']

/-- A number may start here: a digit comes first, perhaps behind a minus. -/
def StartsNumber (s : Text) : Prop :=
  ∃ sign more, s = sign ++ more ∧ IsSign sign ∧ StartsDigits more

/-- One decimal digit or more. -/
structure IsDigits (s : Text) : Prop where
  ne_nil : s ≠ []
  isDecimalDigit : ∀ c ∈ s, Unicode.isDecimalDigit c = true

theorem not_startsDigits_iff :
    ¬ StartsDigits s ↔ ∀ c, s.head? = some c → Unicode.isDecimalDigit c = false := by
  simp [StartsDigits]

theorem IsDigits.startsDigits (h : IsDigits s) (more : Text) : StartsDigits (s ++ more) := by
  obtain ⟨c, others, rfl⟩ := List.exists_cons_of_ne_nil h.ne_nil
  exact ⟨c, rfl, h.isDecimalDigit c (List.mem_cons_self ..)⟩

/-- The run of all the digits that come next is `IsDigits`. -/
theorem StartsDigits.isDigits_takeWhile (h : StartsDigits s) :
    IsDigits (s.takeWhile Unicode.isDecimalDigit) := by
  obtain ⟨c, hhead, hc⟩ := h
  obtain ⟨others, rfl⟩ := List.head?_eq_some_iff.mp hhead
  exact ⟨by simp [hc], fun _ hd => List.mem_takeWhile_imp hd⟩

theorem not_startsDigits_dropWhile (s : Text) :
    ¬ StartsDigits (s.dropWhile Unicode.isDecimalDigit) := by
  rintro ⟨c, hhead, hc⟩
  rw [Text.eq_false_of_head?_dropWhile hhead] at hc
  cases hc

/-- What `StartsDigits` begins with no minus and no white space. -/
theorem StartsDigits.head?_ne {c : Char} (h : StartsDigits s) (hc : Unicode.isDecimalDigit c = false) :
    s.head? ≠ some c := by
  obtain ⟨d, hhead, hd⟩ := h
  intro heq
  obtain rfl := Option.some.inj (hhead.symm.trans heq)
  rw [hc] at hd
  cases hd

theorem StartsNumber.not_isWhiteSpace {c : Char} (h : StartsNumber s) (hc : s.head? = some c) :
    Unicode.isWhiteSpace c = false := by
  obtain ⟨sign, more, rfl, rfl | rfl, hdigits⟩ := h
  · cases hspace : Unicode.isWhiteSpace c with
    | false => rfl
    | true => exact absurd hc (hdigits.head?_ne (Unicode.not_isDecimalDigit_of_isWhiteSpace hspace))
  · obtain rfl := Option.some.inj hc
    rfl

/-- A number as it is written. -/
structure Numeral where
  /-- A minus, or nothing. -/
  sign : Text
  /-- The digits before a dot. -/
  digits : Text
  /-- The digits behind the dot, if there is one. -/
  fraction : Option Text
  isSign : IsSign sign
  isDigits : IsDigits digits
  isDigits_fraction : ∀ f, fraction = some f → IsDigits f

namespace Numeral

/-- What stands before the dot. -/
def integer (n : Numeral) : Text :=
  n.sign ++ n.digits

/-- The dot and the digits behind it. -/
def tail (n : Numeral) : Text :=
  match n.fraction with
  | none => []
  | some f => '.' :: f

/-- The characters of a number. -/
def text (n : Numeral) : Text :=
  n.integer ++ n.tail

/-- The number goes no further: neither a digit comes next nor, if there is no dot in it, a dot with a digit
    behind it. -/
structure Ends (n : Numeral) (more : Text) : Prop where
  digits : ¬ StartsDigits more
  dot : n.fraction = none → ∀ w, more = '.' :: w → ¬ StartsDigits w

/-- Every `Numeral` starts as numbers do. -/
theorem startsNumber (n : Numeral) (more : Text) : StartsNumber (n.text ++ more) := by
  refine ⟨n.sign, n.digits ++ (n.tail ++ more), ?_, n.isSign, n.isDigits.startsDigits _⟩
  simp [text, integer]

theorem integer_ne_nil (n : Numeral) : n.integer ≠ [] := by
  simp [integer, n.isDigits.ne_nil]

/-- Behind the integer of a numeral that `Ends`, no further digit comes: a fraction begins with a dot. -/
theorem Ends.not_startsDigits_tail {n : Numeral} (h : n.Ends more) :
    ¬ StartsDigits (n.tail ++ more) := by
  unfold tail
  split
  · exact h.digits
  · exact fun hdigits => hdigits.head?_ne (c := '.') rfl rfl

end Numeral

/-! ## Their expression -/

/-- The labelled form of an integer with an optional minus. -/
def integerFrom (label : Nat) : Matcher :=
  .seq (perhaps label (.set (.char '-'))) (.plus (label + 1) true (.set (.property .decimalDigit)))

/-- The labelled form of a dot and the digits behind it, the second group, or of nothing. -/
def fractionFrom (label : Nat) : Matcher :=
  perhaps label
    (.seq (.set (.char '.')) (.capture 2 (.plus (label + 1) true (.set (.property .decimalDigit)))))

theorem matcher_numberProgram :
    numberProgram.matcher
      = Matcher.behindBlanks (.seq (.capture 1 (integerFrom 2)) (fractionFrom 4)) :=
  rfl

theorem fails_char {c : Char} (h : x.rest.head? ≠ some c) : (Matcher.set (.char c)).Fails x := by
  apply Matcher.fails_set
  intro d hd
  rw [Bool.eq_false_iff]
  intro hcontains
  exact h (hd.trans (congrArg some (Regex.CharSet.contains_char_iff.mp hcontains)))

/-- A loop over digits goes to the end of their run. -/
theorem takes_digits (label : Nat) {run : Text} (hrun : IsDigits run) (hmore : ¬ StartsDigits more)
    (hx : x.rest = run ++ more) :
    ∃ y, (Matcher.plus label true (.set (.property .decimalDigit))).Takes x y ∧ x.Reads run y :=
  Matcher.takes_plus_set (s := .property .decimalDigit) hrun.ne_nil hrun.isDecimalDigit
    (not_startsDigits_iff.mp hmore) hx

/-- And fails where there are none. -/
theorem fails_digits (label : Nat) (h : ¬ StartsDigits x.rest) :
    (Matcher.plus label true (.set (.property .decimalDigit))).Fails x :=
  (Matcher.fails_set (s := .property .decimalDigit) (not_startsDigits_iff.mp h)).plus _ _

/-- The first path of `integerFrom` reads the minus, if there is one, and all the digits. -/
theorem takes_integerFrom (label : Nat) {n : Numeral} (hmore : ¬ StartsDigits more)
    (hx : x.rest = n.integer ++ more) (hseen : label ∉ x.seen) :
    ∃ y, (integerFrom label).Takes x y ∧ x.Reads n.integer y := by
  have hrest : x.rest = n.sign ++ (n.digits ++ more) := by rw [hx, Numeral.integer, List.append_assoc]
  obtain ⟨y, hsign, hread⟩ : ∃ y, (perhaps label (.set (.char '-'))).Takes x y ∧ x.Reads n.sign y := by
    -- without a minus a digit comes next, and the part for the minus is left out
    rcases n.isSign with hnil | hminus
    · have hdigit : x.rest.head? ≠ some '-' := by
        rw [hrest, hnil]
        exact (n.isDigits.startsDigits more).head?_ne rfl
      rw [hnil]
      exact ⟨_, Matcher.takes_perhaps_none hseen (fails_char hdigit), Regex.Cursor.reads_pass x label⟩
    · have hpass : (x.pass label).rest = '-' :: (n.digits ++ more) := hrest.trans (by rw [hminus]; rfl)
      obtain ⟨y, htakes, hread, -⟩ := Matcher.takes_set (s := .char '-') hpass rfl
      rw [hminus]
      exact ⟨y, Matcher.takes_perhaps hseen htakes, (Regex.Cursor.reads_pass x label).trans hread⟩
  obtain ⟨z, hdigits, hread'⟩ := takes_digits (label + 1) n.isDigits hmore (hread.rest_eq hrest)
  exact ⟨z, hsign.seq hdigits, hread.trans hread'⟩

/-- `integerFrom` fails where `StartsNumber` does. -/
theorem fails_integerFrom (label : Nat) (h : ¬ StartsNumber x.rest) : (integerFrom label).Fails x := by
  apply Matcher.fails_seq_of_mem_paths
  intro y hy
  apply fails_digits
  intro hdigits
  rcases Matcher.mem_paths_perhaps hy with hy | rfl
  · obtain ⟨c, hc, hread⟩ := Matcher.exists_reads_of_consume? (by simpa [Matcher.paths] using hy)
    obtain rfl := Regex.CharSet.contains_char_iff.mp hc
    exact h ⟨['-'], y.rest, hread.rest, .inr rfl, hdigits⟩
  · exact h ⟨[], x.rest, rfl, .inl rfl, hdigits⟩

/-- The first path of `fractionFrom` reads a dot and all the digits behind it, and these are the second
    group. -/
theorem takes_fractionFrom (label : Nat) {fraction : Text} (hfraction : IsDigits fraction)
    (hmore : ¬ StartsDigits more) (hx : x.rest = '.' :: fraction ++ more) (hseen : label ∉ x.seen) :
    ∃ y, (fractionFrom label).Takes x (y.close 2 (x.offset + 1)) ∧ x.Reads ('.' :: fraction) y := by
  have hpass : (x.pass label).rest = '.' :: (fraction ++ more) := hx
  obtain ⟨y, hdot, hread, -⟩ := Matcher.takes_set (s := .char '.') hpass rfl
  obtain ⟨z, hdigits, hread'⟩ :=
    takes_digits (label + 1) hfraction hmore (hread.rest_eq hpass)
  have hoffset : y.offset = x.offset + 1 := hread.offset
  have hcapture := hdigits.capture 2
  rw [hoffset] at hcapture
  exact ⟨z, Matcher.takes_perhaps hseen (hdot.seq hcapture),
    (Regex.Cursor.reads_pass x label).trans (hread.trans hread')⟩

/-- A dot that no digit follows is left alone by `fractionFrom`. -/
theorem takes_fractionFrom_none (label : Nat) (hmore : ∀ w, x.rest = '.' :: w → ¬ StartsDigits w)
    (hseen : label ∉ x.seen) : (fractionFrom label).Takes x (x.pass label) := by
  apply Matcher.takes_perhaps_none hseen
  apply Matcher.fails_seq_of_mem_paths
  intro y hy
  obtain ⟨c, hc, hread⟩ := Matcher.exists_reads_of_consume? (by simpa [Matcher.paths] using hy)
  obtain rfl := Regex.CharSet.contains_char_iff.mp hc
  exact (fails_digits _ (hmore y.rest hread.rest)).capture 2

/-- Both cases of `fractionFrom` in one, for what a `Numeral` that `Ends` has behind its integer. -/
theorem exists_takes_fractionFrom (label : Nat) {n : Numeral} (hmore : n.Ends more)
    (hx : x.rest = n.tail ++ more) (hseen : label ∉ x.seen) :
    ∃ y, (fractionFrom label).Takes x y ∧ y.offset = x.offset + n.tail.size ∧
      y.groups = (n.fraction.map fun f => (2, ⟨x.offset + 1, x.offset + 1 + f.size⟩)).toList
        ++ x.groups := by
  cases hfraction : n.fraction with
  | none =>
      have htail : n.tail = [] := by rw [Numeral.tail, hfraction]
      rw [htail] at hx ⊢
      have hdot : ∀ w, x.rest = '.' :: w → ¬ StartsDigits w :=
        fun w hw => hmore.dot hfraction w (hx.symm.trans hw)
      exact ⟨_, takes_fractionFrom_none label hdot hseen, rfl, rfl⟩
  | some f =>
      have htail : n.tail = '.' :: f := by rw [Numeral.tail, hfraction]
      rw [htail] at hx ⊢
      obtain ⟨y, htakes, hread⟩ :=
        takes_fractionFrom label (n.isDigits_fraction f hfraction) hmore.digits hx hseen
      have hstop : y.offset = x.offset + 1 + f.size := by
        rw [hread.offset, Text.size_cons, ← Nat.add_assoc]
        rfl
      refine ⟨_, htakes, hread.offset, ?_⟩
      simp [Regex.Cursor.close, hstop, hread.groups]

/-- `find?` of the program of numbers, behind white space: the whole `Numeral`, with its integer and its
    fraction as groups. -/
theorem exists_find?_numeral {n : Numeral} (hlead : ∀ c ∈ lead, Unicode.isWhiteSpace c = true)
    (hmore : n.Ends more) :
    ∃ found, numberProgram.matcher.find? (lead ++ (n.text ++ more)) = some found ∧
      found.span = ⟨0, lead.size + n.text.size⟩ ∧
      found.group? 1 = some ⟨lead.size, lead.size + n.integer.size⟩ ∧
      found.group? 2 = n.fraction.map fun f =>
        ⟨lead.size + n.integer.size + 1, lead.size + n.integer.size + 1 + f.size⟩ := by
  have hblank : ∀ c, (n.text ++ more).head? = some c → Unicode.isWhiteSpace c = false :=
    fun c hc => (n.startsNumber more).not_isWhiteSpace hc
  obtain ⟨y, hread, hseen, hfind⟩ :=
    Matcher.find?_behindBlanks (.seq (.capture 1 (integerFrom 2)) (fractionFrom 4)) hlead hblank
  rw [← matcher_numberProgram] at hfind
  have hy : y.rest = n.integer ++ (n.tail ++ more) := by
    rw [hread.rest_eq rfl, Numeral.text, List.append_assoc]
  obtain ⟨z, hinteger, hread'⟩ := takes_integerFrom 2 hmore.not_startsDigits_tail hy
    fun hlabel => absurd (hseen 2 hlabel) (by decide)
  -- the integer has a digit at least, so nothing is remembered that could keep the fraction out
  have hlabel : 4 ∉ z.seen := Matcher.not_mem_seen_of_takes hinteger hread' n.integer_ne_nil
    (by simp [integerFrom, perhaps, Matcher.labels])
  obtain ⟨u, hfraction, hoffset, hgroups⟩ := exists_takes_fractionFrom 4
    (x := z.close 1 y.offset) hmore (hread'.rest_eq hy) hlabel
  have hstart : y.offset = lead.size := hread.offset.trans (Nat.zero_add _)
  have hstop : z.offset = lead.size + n.integer.size := by rw [hread'.offset, hstart]
  have hnone : z.groups = [] := hread'.groups.trans hread.groups
  simp only [Regex.Cursor.close, hstart, hstop, hnone] at hoffset hgroups
  refine ⟨_, hfind _ ((hinteger.capture 1).seq hfraction), ?_, ?_, ?_⟩
  · rw [hoffset, Numeral.text, Text.size_append, Nat.add_assoc]
  · rw [Regex.Match.group?, hgroups]
    cases n.fraction <;> rfl
  · rw [Regex.Match.group?, hgroups]
    cases n.fraction <;> rfl

end Token

/-! ## Reading numbers -/

namespace Recognizer

open Token

variable {t rest lead more : Text} {pos : Nat}

/-- `number` reads a `Numeral` that `Ends`, after any white space, and keeps its characters. -/
theorem result_numeral {n : Numeral} (h : t.from? pos = some (lead ++ (n.text ++ more)))
    (hlead : ∀ c ∈ lead, Unicode.isWhiteSpace c = true) (hmore : n.Ends more) :
    (number t pos).result
      = .ok (some (.number (.token pos lead n.text) n.integer n.fraction)) := by
  obtain ⟨found, hfind, hspan, hinteger, hfraction⟩ := exists_find?_numeral hlead hmore
  rw [← Regex.Program.find?_eq] at hfind
  have hpos : pos < t.size := by
    have hne : n.integer.size ≠ 0 := fun hsize => n.integer_ne_nil (Text.size_eq_zero_iff.mp hsize)
    rw [Text.size_of_from? h]
    simp [Numeral.text]
    omega
  -- the end that the groups give is the end of the match
  have hstop : ((found.group? 2).map Span.stop).getD (lead.size + n.integer.size)
      = lead.size + n.text.size := by
    rw [hfraction]
    have hdot : Char.utf8Size '.' = 1 := rfl
    cases hf : n.fraction <;> simp [Numeral.text, Numeral.tail, hf, hdot, Nat.add_assoc]
  have hinner : (lead ++ (n.text ++ more)).slice? lead.size (lead.size + n.integer.size)
      = some n.integer :=
    Text.slice?_eq_some_iff.mpr ⟨lead, n.tail ++ more, by simp [Numeral.text], rfl, rfl⟩
  have hbehind : (found.group? 2).map
      (fun s => ((lead ++ (n.text ++ more)).slice? s.start s.stop).getD []) = n.fraction := by
    rw [hfraction]
    cases hf : n.fraction with
    | none => rfl
    | some f =>
        have hslice : (lead ++ (n.text ++ more)).slice? (lead.size + n.integer.size + 1)
            (lead.size + n.integer.size + 1 + f.size) = some f :=
          Text.slice?_eq_some_iff.mpr ⟨lead ++ n.integer ++ ['.'], more,
            by simp [Numeral.text, Numeral.tail, hf], by simp; rfl, rfl⟩
        simp [hslice]
  simp only [number, hpos, if_true, h, hfind, hinteger, hstop, hspan, hinner, hbehind,
    Option.getD_some, ← Nat.add_assoc, Nat.add_zero, Traced.result_bind,
    Extent.result_ofRange_token h]
  rfl

/-- `number` has no answer where `StartsNumber` fails behind the white space. -/
theorem result_number_none (h : t.from? pos = some rest)
    (hnone : ¬ StartsNumber (rest.dropWhile Unicode.isWhiteSpace)) :
    (number t pos).result = .ok none := by
  have hfind : numberProgram.matcher.find?
      (rest.takeWhile Unicode.isWhiteSpace ++ rest.dropWhile Unicode.isWhiteSpace) = none := by
    rw [matcher_numberProgram]
    apply Regex.Matcher.find?_behindBlanks_none fun _ hc => List.mem_takeWhile_imp hc
    · exact fun _ hc => Text.eq_false_of_head?_dropWhile hc
    · intro y hy
      have hstarts : ¬ StartsNumber y.rest := by
        rcases hy with hy | ⟨c, hc, hspace⟩
        · rwa [hy]
        · intro hnumber
          rw [hnumber.not_isWhiteSpace hc] at hspace
          cases hspace
      exact ((fails_integerFrom 2 hstarts).capture 1).seq _
  rw [List.takeWhile_append_dropWhile, ← Regex.Program.find?_eq] at hfind
  simp only [number, h, hfind]
  split <;> rfl

section

variable {sign ahead : Text}

/-- `result_numeral` at the end of all the white space. -/
theorem exists_number_of_dropWhile {n : Numeral} (h : t.from? pos = some rest) (hmore : n.Ends more)
    (hahead : rest.dropWhile Unicode.isWhiteSpace = n.text ++ more) :
    ∃ x, (number t pos).result = .ok (some (.number x n.integer n.fraction)) ∧
      x.Delimits t pos (rest.takeWhile Unicode.isWhiteSpace) n.text := by
  have hsplit : t.from? pos
      = some (rest.takeWhile Unicode.isWhiteSpace ++ (n.text ++ more)) := by
    rw [h, ← hahead, List.takeWhile_append_dropWhile]
  exact ⟨_, result_numeral hsplit (fun c hc => List.mem_takeWhile_imp hc) hmore,
    Extent.delimits_token hsplit⟩

/-- `number` where a dot and a digit come behind the digits. -/
theorem exists_number_fraction (h : t.from? pos = some rest) (hsign : IsSign sign)
    (hdigits : StartsDigits more) (hahead : rest.dropWhile Unicode.isWhiteSpace = sign ++ more)
    {w : Text} (hbehind : more.dropWhile Unicode.isDecimalDigit = '.' :: w) (hw : StartsDigits w) :
    ∃ x, (number t pos).result
        = .ok (some (.number x (sign ++ more.takeWhile Unicode.isDecimalDigit)
          (some (w.takeWhile Unicode.isDecimalDigit)))) ∧
      x.Delimits t pos (rest.takeWhile Unicode.isWhiteSpace)
        (sign ++ more.takeWhile Unicode.isDecimalDigit
          ++ '.' :: w.takeWhile Unicode.isDecimalDigit) := by
  let n : Numeral := ⟨sign, more.takeWhile Unicode.isDecimalDigit,
    some (w.takeWhile Unicode.isDecimalDigit), hsign, hdigits.isDigits_takeWhile,
    by rintro f ⟨⟩; exact hw.isDigits_takeWhile⟩
  have hends : n.Ends (w.dropWhile Unicode.isDecimalDigit) :=
    ⟨not_startsDigits_dropWhile w, by rintro ⟨⟩⟩
  have hmore : more.takeWhile Unicode.isDecimalDigit ++ '.' :: w = more := by
    rw [← hbehind, List.takeWhile_append_dropWhile]
  have hsplit : n.text ++ w.dropWhile Unicode.isDecimalDigit = sign ++ more := calc
    n.text ++ w.dropWhile Unicode.isDecimalDigit
      = sign ++ (more.takeWhile Unicode.isDecimalDigit ++ '.' ::
          (w.takeWhile Unicode.isDecimalDigit ++ w.dropWhile Unicode.isDecimalDigit)) := by
        simp only [n, Numeral.text, Numeral.integer, Numeral.tail, List.append_assoc, List.cons_append]
    _ = sign ++ more := by rw [List.takeWhile_append_dropWhile, hmore]
  exact exists_number_of_dropWhile h hends (hahead.trans hsplit.symm)

/-- `number` where they do not. -/
theorem exists_number_integer (h : t.from? pos = some rest) (hsign : IsSign sign)
    (hdigits : StartsDigits more) (hahead : rest.dropWhile Unicode.isWhiteSpace = sign ++ more)
    (hdot : ∀ w, more.dropWhile Unicode.isDecimalDigit = '.' :: w → ¬ StartsDigits w) :
    ∃ x, (number t pos).result
        = .ok (some (.number x (sign ++ more.takeWhile Unicode.isDecimalDigit) none)) ∧
      x.Delimits t pos (rest.takeWhile Unicode.isWhiteSpace)
        (sign ++ more.takeWhile Unicode.isDecimalDigit) := by
  let n : Numeral := ⟨sign, more.takeWhile Unicode.isDecimalDigit, none, hsign,
    hdigits.isDigits_takeWhile, by rintro f ⟨⟩⟩
  have htext : n.text = sign ++ more.takeWhile Unicode.isDecimalDigit := List.append_nil _
  have hends : n.Ends (more.dropWhile Unicode.isDecimalDigit) :=
    ⟨not_startsDigits_dropWhile more, fun _ => hdot⟩
  have hsplit : sign ++ more = n.text ++ more.dropWhile Unicode.isDecimalDigit := by
    rw [htext, List.append_assoc, List.takeWhile_append_dropWhile]
  obtain ⟨x, hx, hdelimits⟩ := exists_number_of_dropWhile h hends (hahead.trans hsplit)
  exact ⟨x, hx, htext ▸ hdelimits⟩

end

/-- **Numbers.** At a cut of the text, `number` answers exactly where a decimal digit comes behind all the
    white space, perhaps with a minus before it. The integer is the minus and the run of all digits that
    come next, and there is a fraction exactly if a dot and a digit follow: the run of all digits behind
    the dot. What the extent `Delimits` is the integer, or else the integer, the dot and the fraction. -/
theorem number_longest (h : t.from? pos = some rest) :
    let lead := rest.takeWhile Unicode.isWhiteSpace
    let ahead := rest.dropWhile Unicode.isWhiteSpace
    ((∃ e, (number t pos).result = .ok (some e)) ↔ StartsNumber ahead) ∧
      (¬ StartsNumber ahead → (number t pos).result = .ok none) ∧
      ∀ sign more, ahead = sign ++ more → IsSign sign → StartsDigits more →
        let integer := sign ++ more.takeWhile Unicode.isDecimalDigit
        let behind := more.dropWhile Unicode.isDecimalDigit
        (∀ w, behind = '.' :: w → StartsDigits w →
          let fraction := w.takeWhile Unicode.isDecimalDigit
          ∃ x, (number t pos).result = .ok (some (.number x integer (some fraction))) ∧
            x.Delimits t pos lead (integer ++ '.' :: fraction)) ∧
        ((∀ w, behind = '.' :: w → ¬ StartsDigits w) →
          ∃ x, (number t pos).result = .ok (some (.number x integer none)) ∧
            x.Delimits t pos lead integer) := by
  intro lead ahead
  refine ⟨⟨?_, ?_⟩, result_number_none h, ?_⟩
  · rintro ⟨e, he⟩
    by_contra hnone
    cases he.symm.trans (result_number_none h hnone)
  · rintro ⟨sign, more, hahead, hsign, hdigits⟩
    by_cases hdot : ∃ w, more.dropWhile Unicode.isDecimalDigit = '.' :: w ∧ StartsDigits w
    · obtain ⟨w, hbehind, hw⟩ := hdot
      obtain ⟨x, hx, -⟩ := exists_number_fraction h hsign hdigits hahead hbehind hw
      exact ⟨_, hx⟩
    · obtain ⟨x, hx, -⟩ := exists_number_integer h hsign hdigits hahead
        fun w hbehind hw => hdot ⟨w, hbehind, hw⟩
      exact ⟨_, hx⟩
  · intro sign more hahead hsign hdigits
    exact ⟨fun w => exists_number_fraction h hsign hdigits hahead,
      exists_number_integer h hsign hdigits hahead⟩

/-- `number_longest` behind a line break, for a negative number with digits of two scripts, and a second
    dot that belongs to no number. -/
theorem number_longest_scripts :
    Text.from? ['é', '\n', '-', '4', '٢', '.', '0', '.', ';'] 2
        = some ['\n', '-', '4', '٢', '.', '0', '.', ';'] ∧
      ∃ x, (number ['é', '\n', '-', '4', '٢', '.', '0', '.', ';'] 2).result
          = .ok (some (.number x ['-', '4', '٢'] (some ['0']))) ∧
        x.Delimits ['é', '\n', '-', '4', '٢', '.', '0', '.', ';'] 2 ['\n']
          ['-', '4', '٢', '.', '0'] := by
  have hfrom : Text.from? ['é', '\n', '-', '4', '٢', '.', '0', '.', ';'] 2
      = some ['\n', '-', '4', '٢', '.', '0', '.', ';'] := by decide
  obtain ⟨-, -, hnumber⟩ := number_longest hfrom
  obtain ⟨hfraction, -⟩ := hnumber ['-'] ['4', '٢', '.', '0', '.', ';'] rfl (.inr rfl) ⟨'4', rfl, rfl⟩
  exact ⟨hfrom, hfraction ['0', '.', ';'] rfl ⟨'0', rfl, rfl⟩⟩

end Recognizer

end Graft
