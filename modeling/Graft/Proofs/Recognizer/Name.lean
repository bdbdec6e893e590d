import Graft.Proofs.Recognizer.Token
import Graft.Proofs.Regex.Begin

/-!
# `Graft.Proofs.Recognizer.Name` — which names are read

White space before a name is passed over. An identifier is read as far as it goes (`result_word`): it ends
where no word character follows. So is a dotted name (`result_dottedWord`), which ends where neither a word
character nor a dot with a further identifier follows. Where something else than a letter or an underscore
comes after the white space, there is no name (`result_word_none`, `result_dottedWord_none`).

The expression of a name leaves little to choose. White space and the first letter of a name exclude
each other, so the loop over white space cannot give anything back; and what a longer name would need
is missing where the name ends.
-/

namespace Graft

/-! ## Characters of words -/

/-- White space is apart from each of the tables that `isWordChar` is made of, which is decided range by
    range (`RangeTable.Apart.not_contains`). -/
theorem Unicode.not_isWordChar_of_isWhiteSpace {c : Char} (h : isWhiteSpace c = true) :
    isWordChar c = false := by
  have halphabetic : whiteSpace.Apart alphabetic := by decide +kernel
  have hmark : whiteSpace.Apart mark := by decide +kernel
  have hdigit : whiteSpace.Apart decimalDigit := by decide +kernel
  have hconnector : whiteSpace.Apart connector := by decide +kernel
  have hjoin : whiteSpace.Apart joinControl := by decide +kernel
  simp only [isWordChar, isAlphabetic, isMark, isDecimalDigit, halphabetic.not_contains h,
    hmark.not_contains h, hdigit.not_contains h, hconnector.not_contains h, hjoin.not_contains h,
    Bool.or_false]

theorem Unicode.not_isDecimalDigit_of_isWhiteSpace {c : Char} (h : isWhiteSpace c = true) :
    isDecimalDigit c = false := by
  have hword := not_isWordChar_of_isWhiteSpace h
  simp only [isWordChar, Bool.or_eq_false_iff] at hword
  exact hword.1.1.2

/-- What `dropWhile` leaves begins with a character of another kind. -/
theorem Text.eq_false_of_head?_dropWhile {p : Char → Bool} {s : Text} {c : Char}
    (h : (s.dropWhile p).head? = some c) : p c = false := by
  have hstop := List.head?_dropWhile_not p s
  rw [h] at hstop
  simpa using hstop

namespace Token

/-- The letters of ASCII are two ranges, to which `Char.isAlpha` unfolds. -/
theorem isAlpha_iff {c : Char} :
    c.isAlpha = true ↔ ('A' ≤ c ∧ c ≤ 'Z') ∨ 'a' ≤ c ∧ c ≤ 'z' := by
  have halpha : c.isAlpha
      = (decide ('A' ≤ c ∧ c ≤ 'Z') || (decide ('a' ≤ c) && decide (c ≤ 'z'))) := rfl
  simp [halpha]

/-- The set `wordStart` in terms of characters. -/
theorem contains_wordStart_iff {c : Char} :
    wordStart.contains c = true ↔ c = '_' ∨ c.isAlpha = true := by
  have hsplit : wordStart.contains c = true ↔
      Regex.CharSet.contains (.char '_') c = true ∨
        Regex.CharSet.contains (.range 'A' 'Z') c = true ∨
          Regex.CharSet.contains (.range 'a' 'z') c = true := by
    simp [wordStart, Regex.CharSet.char, Regex.CharSet.ranges, Regex.CharSet.unions,
      Regex.CharSet.contains]
  rw [hsplit, Regex.CharSet.contains_char_iff, Regex.CharSet.contains_range_iff,
    Regex.CharSet.contains_range_iff, isAlpha_iff]

theorem toNat_of_wordStart {c : Char} (h : wordStart.contains c = true) :
    c.toNat = 0x5F ∨ (0x41 ≤ c.toNat ∧ c.toNat ≤ 0x5A) ∨ 0x61 ≤ c.toNat ∧ c.toNat ≤ 0x7A := by
  rcases contains_wordStart_iff.mp h with rfl | hletter
  · exact .inl rfl
  · exact .inr (by simpa [Char.le_def, UInt32.le_iff_toNat_le] using isAlpha_iff.mp hletter)

theorem isWordChar_of_wordStart {c : Char} (h : wordStart.contains c = true) :
    Unicode.isWordChar c = true := by
  rcases toNat_of_wordStart h with h | h | h
  · have hc : Unicode.connector.contains c.toNat = true :=
      Unicode.RangeTable.contains_iff.mpr ⟨(0x5F, 0x5F), .head _, Nat.le_of_eq h.symm, Nat.le_of_eq h⟩
    simp [Unicode.isWordChar, hc]
  · have hc : Unicode.isAlphabetic c = true :=
      Unicode.RangeTable.contains_iff.mpr ⟨(0x41, 0x5A), .head _, h⟩
    simp [Unicode.isWordChar, hc]
  · have hc : Unicode.isAlphabetic c = true :=
      Unicode.RangeTable.contains_iff.mpr ⟨(0x61, 0x7A), .tail _ (.head _), h⟩
    simp [Unicode.isWordChar, hc]

theorem not_isWhiteSpace_of_wordStart {c : Char} (h : wordStart.contains c = true) :
    Unicode.isWhiteSpace c = false := by
  cases hc : Unicode.isWhiteSpace c with
  | false => rfl
  | true =>
      have := Unicode.not_isWordChar_of_isWhiteSpace hc
      rw [isWordChar_of_wordStart h] at this
      cases this

theorem not_wordStart_of_isWhiteSpace {c : Char} (h : Unicode.isWhiteSpace c = true) :
    wordStart.contains c = false := by
  cases hc : wordStart.contains c with
  | false => rfl
  | true => exact h.symm.trans (not_isWhiteSpace_of_wordStart hc)

/-! ## Identifiers and dotted names -/

/-- A letter of ASCII or an underscore, then word characters of any script. -/
def IsIdentifier (s : Text) : Prop :=
  ∃ c others, s = c :: others ∧ wordStart.contains c = true ∧
    ∀ d ∈ others, Unicode.isWordChar d = true

/-- Identifiers joined by dots. -/
def IsDottedName (s : Text) : Prop :=
  ∃ (first : Text) (others : List Text), IsIdentifier first ∧ (∀ p ∈ others, IsIdentifier p) ∧
    s = first ++ (others.map ('.' :: ·)).flatten

/-- What may come after an identifier that goes no further: no word character. -/
def EndsIdentifier (more : Text) : Prop :=
  ∀ c, more.head? = some c → Unicode.isWordChar c = false

/-- What may come after a dotted name that goes no further: neither a word character nor a dot with an
    identifier behind it. -/
def EndsDottedName (more : Text) : Prop :=
  EndsIdentifier more ∧ ∀ c rest, more = '.' :: c :: rest → wordStart.contains c = false

/-- A text that starts as a name does and ends in a word character. -/
structure IsName (s : Text) : Prop where
  first : ∃ c, s.head? = some c ∧ wordStart.contains c = true
  last : ∃ c, s.getLast? = some c ∧ Unicode.isWordChar c = true

/-- An `IsIdentifier` is made of word characters: a `wordStart` is one too. -/
theorem IsIdentifier.isWordChar {s : Text} (h : IsIdentifier s) :
    ∀ d ∈ s, Unicode.isWordChar d = true := by
  obtain ⟨c, others, rfl, hc, hothers⟩ := h
  exact List.forall_mem_cons.mpr ⟨isWordChar_of_wordStart hc, hothers⟩

theorem IsIdentifier.isName {s : Text} (h : IsIdentifier s) : IsName s := by
  have hword := h.isWordChar
  obtain ⟨c, others, rfl, hc, -⟩ := h
  refine ⟨⟨c, rfl, hc⟩, ?_⟩
  exact ⟨_, List.getLast?_eq_some_getLast (List.cons_ne_nil c others), hword _ (List.getLast_mem _)⟩

theorem IsDottedName.isName {s : Text} (h : IsDottedName s) : IsName s := by
  obtain ⟨first, others, hfirst, hothers, rfl⟩ := h
  obtain ⟨⟨c, hhead, hc⟩, hlast⟩ := hfirst.isName
  refine ⟨⟨c, by rw [List.head?_append, hhead]; rfl, hc⟩, ?_⟩
  rcases List.eq_nil_or_concat others with rfl | ⟨init, last, rfl⟩
  · simpa using hlast
  · obtain ⟨d, hd, hword⟩ := (hothers last (by simp)).isName.last
    refine ⟨d, ?_, hword⟩
    simp [List.getLast?_append, List.getLast?_cons, hd]

/-! ## Their expressions -/

open Regex (Matcher)
open Regex.Matcher (Pieces looped)

/-- The labelled form of an identifier. -/
def identifierFrom (label : Nat) : Matcher :=
  .seq (.set wordStart) (looped label (.set (.property .wordChar)))

/-- The labelled form of a dotted name. -/
def dottedNameFrom (label : Nat) : Matcher :=
  .seq (identifierFrom label)
    (looped (label + 2) (.seq (.set (.char '.')) (identifierFrom (label + 4))))

/-- The expression of identifiers goes over an identifier where it ends, and takes all of it. -/
theorem accepts_identifierFrom {s : Text} (h : IsIdentifier s) (label : Nat) :
    (identifierFrom label).Accepts EndsIdentifier s := by
  obtain ⟨c, others, rfl, hc, hothers⟩ := h
  intro x r hx hnext
  obtain ⟨y, htakes, hread, hseen⟩ := Matcher.takes_set hx hc
  have hy : y.rest = others ++ r := hread.rest_eq hx
  have hrun : ∃ z, (looped label (.set (.property .wordChar))).Takes y z ∧ y.Reads others z :=
    Matcher.takes_looped_set hothers hnext hy (by simp [hseen])
  obtain ⟨z, htakes', hread'⟩ := hrun
  exact ⟨z, htakes.seq htakes', hread.trans hread'⟩

/-- And it fails where no identifier starts. -/
theorem fails_identifierFrom {x : Regex.Cursor} (label : Nat)
    (h : ∀ c, x.rest.head? = some c → wordStart.contains c = false) :
    (identifierFrom label).Fails x :=
  (Matcher.fails_set h).seq _

/-- The dots of an `IsDottedName`, each with the identifier behind it, are the `Pieces` that the loop goes
    over. What `EndsDottedName` leaves is not one more piece. -/
theorem pieces_dots {others : List Text} {more : Text} (hothers : ∀ p ∈ others, IsIdentifier p)
    (hmore : EndsDottedName more) (label : Nat) :
    Pieces (.seq (.set (.char '.')) (identifierFrom label)) EndsIdentifier
      (others.map ('.' :: ·)) more := by
  have hdot : (Regex.CharSet.char '.').contains '.' = true := rfl
  refine ⟨?_, ?_, ?_, hmore.1, ?_⟩
  · simp
  · intro p hp x r hx hnext
    obtain ⟨q, hq, rfl⟩ := List.mem_map.mp hp
    obtain ⟨y, htakes, hread, -⟩ := Matcher.takes_set hx hdot
    obtain ⟨z, htakes', hread'⟩ :=
      accepts_identifierFrom (hothers q hq) label y r (hread.rest_eq hx) hnext
    exact ⟨z, htakes.seq htakes', hread.trans hread'⟩
  · intro p hp r c hc
    obtain ⟨q, -, rfl⟩ := List.mem_map.mp hp
    obtain rfl := Option.some.inj hc
    rfl
  · intro x hx
    apply Matcher.fails_seq_of_mem_paths
    intro y hy
    obtain ⟨c, hc, hread⟩ := Matcher.exists_reads_of_consume? (by simpa [Matcher.paths] using hy)
    obtain rfl := Regex.CharSet.contains_char_iff.mp hc
    apply fails_identifierFrom
    intro d hd
    obtain ⟨rest, hrest⟩ := List.head?_eq_some_iff.mp hd
    refine hmore.2 d rest ?_
    rw [← hx, hread.rest, hrest]
    rfl

/-- The same of dotted names, whose further parts are the `Pieces` of a loop. -/
theorem accepts_dottedNameFrom {s : Text} (h : IsDottedName s) (label : Nat) :
    (dottedNameFrom label).Accepts EndsDottedName s := by
  obtain ⟨first, others, hfirst, hothers, rfl⟩ := h
  intro x r hx hnext
  have hpieces := pieces_dots hothers hnext (label + 4)
  rw [List.append_assoc] at hx
  obtain ⟨y, htakes, hread⟩ := accepts_identifierFrom hfirst label x _ hx hpieces.next_flatten
  have hne : first ≠ [] := by
    obtain ⟨c, rest, rfl, -⟩ := hfirst
    simp
  have hseen : label + 2 ∉ y.seen :=
    Matcher.not_mem_seen_of_takes htakes hread hne (by simp [identifierFrom, looped, Matcher.labels])
  obtain ⟨z, htakes', hread'⟩ := hpieces.takes_looped
    (by simp [identifierFrom, looped, Matcher.labels]) (hread.rest_eq hx) hseen
  exact ⟨z, htakes.seq htakes', hread.trans hread'⟩

/-- White space from the start of a text on, and behind it the first group, between edges of words. -/
def afterWhiteSpace (m : Matcher) : Matcher :=
  .seq (.look .textStart) (.seq (looped 0 (.set (.property .whiteSpace)))
    (.seq (.look (.word .boundary false)) (.seq (.capture 1 m) (.look (.word .boundary false)))))

theorem matcher_wordProgram : wordProgram.matcher = afterWhiteSpace (identifierFrom 2) :=
  rfl

theorem matcher_dottedWordProgram :
    dottedWordProgram.matcher = afterWhiteSpace (dottedNameFrom 2) :=
  rfl

/-- The test of a word edge succeeds between a side that is `inWord` and one that is not. -/
theorem takes_edge {x : Regex.Cursor}
    (h : Regex.inWord false x.before ≠ Regex.inWord false x.rest.head?) :
    (Matcher.look (.word .boundary false)).Takes x x := by
  apply Matcher.takes_look
  simpa [Regex.Look.holds, Regex.WordEdge.holds] using h

theorem find?_afterWhiteSpace {m : Matcher} {Next : Text → Prop} {lead name more : Text}
    (hlead : ∀ c ∈ lead, Unicode.isWhiteSpace c = true) (hm : m.Accepts Next name)
    (hname : IsName name) (hnext : Next more) (hmore : EndsIdentifier more) :
    (afterWhiteSpace m).find? (lead ++ (name ++ more))
      = some ⟨⟨0, lead.size + name.size⟩, [(1, ⟨lead.size, lead.size + name.size⟩)]⟩ := by
  obtain ⟨⟨first, hfirst, hstart⟩, ⟨last, hlast, hword⟩⟩ := hname
  have hhead : (name ++ more).head? = some first := by rw [List.head?_append, hfirst]; rfl
  -- white space is passed over up to the name, which does not start with any
  have hblank : ∀ c, (name ++ more).head? = some c → Unicode.isWhiteSpace c = false := by
    rintro c hc
    obtain rfl := Option.some.inj (hhead.symm.trans hc)
    exact not_isWhiteSpace_of_wordStart hstart
  obtain ⟨y, hread, -, hfind⟩ := Matcher.find?_behindBlanks
    (.seq (.look (.word .boundary false)) (.seq (.capture 1 m) (.look (.word .boundary false))))
    hlead hblank
  have hy : y.rest = name ++ more := hread.rest_eq rfl
  obtain ⟨z, htakes, hread'⟩ := hm y more hy hnext
  -- the name stands between edges
  have hbefore : Regex.inWord false y.before = false := by
    rw [hread.before]
    cases hd : lead.getLast? with
    | none => rfl
    | some d => exact Unicode.not_isWordChar_of_isWhiteSpace (hlead d (List.mem_of_getLast? hd))
  have hedge : (Matcher.look (.word .boundary false)).Takes y y := by
    apply takes_edge
    have hafter : Regex.inWord false y.rest.head? = true := by
      rw [hy, hhead]
      exact isWordChar_of_wordStart hstart
    rw [hbefore, hafter]
    decide
  have hedge' : (Matcher.look (.word .boundary false)).Takes (z.close 1 y.offset)
      (z.close 1 y.offset) := by
    apply takes_edge
    have hafter : Regex.inWord false (z.close 1 y.offset).before = true := by
      show Regex.inWord false z.before = true
      rw [hread'.before, hlast]
      exact hword
    have hbehind : Regex.inWord false (z.close 1 y.offset).rest.head? = false := by
      show Regex.inWord false z.rest.head? = false
      rw [hread'.rest_eq hy]
      cases hd : more.head? with
      | none => rfl
      | some d => exact hmore d hd
    rw [hafter, hbehind]
    decide
  have hoffset : y.offset = lead.size := hread.offset.trans (Nat.zero_add _)
  have hgroups : z.groups = [] := hread'.groups.trans hread.groups
  have hfound := hfind _ (hedge.seq ((htakes.capture 1).seq hedge'))
  rw [afterWhiteSpace, ← Matcher.behindBlanks, hfound]
  simp [Regex.Cursor.close, hread'.offset, hoffset, hgroups]

/-- The matcher of a name finds nothing where something else than white space or a `wordStart` comes
    first. The loop over white space cannot give back what it took, since
    `not_wordStart_of_isWhiteSpace`. -/
theorem find?_afterWhiteSpace_none {m : Matcher} {lead more : Text}
    (hm : ∀ x : Regex.Cursor, (∀ c, x.rest.head? = some c → wordStart.contains c = false) → m.Fails x)
    (hlead : ∀ c ∈ lead, Unicode.isWhiteSpace c = true)
    (hmore : ∀ c, more.head? = some c →
      Unicode.isWhiteSpace c = false ∧ wordStart.contains c = false) :
    (afterWhiteSpace m).find? (lead ++ more) = none := by
  rw [afterWhiteSpace, ← Matcher.behindBlanks]
  apply Matcher.find?_behindBlanks_none hlead fun c hc => (hmore c hc).1
  intro y hy
  have hnext : ∀ c, y.rest.head? = some c → wordStart.contains c = false := by
    intro c hc
    rcases hy with hy | ⟨d, hd, hspace⟩
    · exact (hmore c (hy ▸ hc)).2
    · obtain rfl := Option.some.inj (hd.symm.trans hc)
      exact not_wordStart_of_isWhiteSpace hspace
  apply Matcher.fails_seq_of_mem_paths
  intro z hz
  obtain rfl := Matcher.eq_of_mem_look hz
  exact ((hm _ hnext).capture 1).seq _

end Token

/-! ## Reading names -/

namespace Recognizer

open Token

variable {t : Text} {pos : Nat}

section

variable {p : Regex.Program} {m : Regex.Matcher} {kind : Extent → Element} {Next : Text → Prop}
  {lead name more : Text}

/-- What `word` and `dottedWord` have in common: a name that the expression `Accepts` is read, after any
    white space. -/
theorem result_name (hp : p.matcher = afterWhiteSpace m) (hm : m.Accepts Next name)
    (h : t.from? pos = some (lead ++ (name ++ more)))
    (hlead : ∀ c ∈ lead, Unicode.isWhiteSpace c = true) (hname : IsName name) (hnext : Next more)
    (hmore : EndsIdentifier more) :
    (ofProgram p kind t pos).result = .ok (some (kind (.token pos lead name))) := by
  have hfind := find?_afterWhiteSpace hlead hm hname hnext hmore
  rw [← hp, ← Regex.Program.find?_eq] at hfind
  have hpos : pos < t.size := by
    obtain ⟨c, hhead, -⟩ := hname.first
    obtain ⟨others, rfl⟩ := List.head?_eq_some_iff.mp hhead
    have := c.utf8Size_pos
    rw [Text.size_of_from? h]
    simp
    omega
  have hscan : p.scan? t pos = some ⟨pos + lead.size,
      pos + lead.size + name.size, ⟨pos, pos + lead.size + name.size⟩⟩ := by
    rw [Regex.Program.scan?, if_pos hpos, h, Option.bind_some, hfind]
    simp [Regex.Match.group?, Nat.add_assoc]
  rw [ofProgram, hscan]
  simp only [Traced.result_bind, Extent.result_ofRange_token h]
  rfl

/-- The counterpart of `result_name`: nothing is read where the white space ends in front of
    something that no name starts with. -/
theorem result_name_none (hp : p.matcher = afterWhiteSpace m)
    (hm : ∀ x : Regex.Cursor, (∀ c, x.rest.head? = some c → wordStart.contains c = false) → m.Fails x)
    (h : t.from? pos = some (lead ++ more)) (hlead : ∀ c ∈ lead, Unicode.isWhiteSpace c = true)
    (hmore : ∀ c, more.head? = some c →
      Unicode.isWhiteSpace c = false ∧ wordStart.contains c = false) :
    (ofProgram p kind t pos).result = .ok none := by
  have hfind := find?_afterWhiteSpace_none hm hlead hmore
  rw [← hp, ← Regex.Program.find?_eq] at hfind
  have hscan : p.scan? t pos = none := by
    rw [Regex.Program.scan?, h, Option.bind_some, hfind]
    split <;> rfl
  rw [ofProgram, hscan]
  rfl

end

variable {lead name more : Text}

/-- `result_name` for identifiers. -/
theorem result_word (h : t.from? pos = some (lead ++ (name ++ more)))
    (hlead : ∀ c ∈ lead, Unicode.isWhiteSpace c = true) (hname : IsIdentifier name)
    (hmore : EndsIdentifier more) :
    (word t pos).result = .ok (some (.word (.token pos lead name))) :=
  result_name matcher_wordProgram (accepts_identifierFrom hname 2) h hlead hname.isName hmore hmore

/-- `result_name_none` for identifiers. -/
theorem result_word_none (h : t.from? pos = some (lead ++ more))
    (hlead : ∀ c ∈ lead, Unicode.isWhiteSpace c = true)
    (hmore : ∀ c, more.head? = some c →
      Unicode.isWhiteSpace c = false ∧ wordStart.contains c = false) :
    (word t pos).result = .ok none :=
  result_name_none matcher_wordProgram (fun _ => fails_identifierFrom 2) h hlead hmore

/-- `result_name` for dotted names. -/
theorem result_dottedWord (h : t.from? pos = some (lead ++ (name ++ more)))
    (hlead : ∀ c ∈ lead, Unicode.isWhiteSpace c = true) (hname : IsDottedName name)
    (hmore : EndsDottedName more) :
    (dottedWord t pos).result = .ok (some (.dottedWord (.token pos lead name))) :=
  result_name matcher_dottedWordProgram (accepts_dottedNameFrom hname 2) h hlead hname.isName hmore
    hmore.1

/-- `result_name_none` for dotted names. -/
theorem result_dottedWord_none (h : t.from? pos = some (lead ++ more))
    (hlead : ∀ c ∈ lead, Unicode.isWhiteSpace c = true)
    (hmore : ∀ c, more.head? = some c →
      Unicode.isWhiteSpace c = false ∧ wordStart.contains c = false) :
    (dottedWord t pos).result = .ok none :=
  result_name_none matcher_dottedWordProgram (fun _ hx => (fails_identifierFrom 2 hx).seq _) h hlead hmore

end Recognizer

end Graft
