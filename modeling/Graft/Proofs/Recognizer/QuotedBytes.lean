import Graft.Proofs.Recognizer.QuotedBody
import Graft.Proofs.Text.Bytes

/-!
# `Graft.Proofs.Recognizer.QuotedBytes` — quoted literals byte by byte

A quoted literal can be read without taking characters apart from one another: one byte comes after the other,
and a backslash takes away the meaning of the next byte, whatever character it belongs to (`bytewiseString`).
Everything that this reading looks for is one byte long, so it stops where the reading of characters does, and
the two are one recogniser (`bytewiseString_eq`). Behind a backslash the first byte of a longer character is
passed over as escaped and the others as plain, which comes to the same.
-/

namespace Graft

namespace Recognizer

open Text

variable {t : Text} {mark c : Char} {b : UInt8}

/-! ## The reading of bytes -/

/-- Whether a byte may stand before a quoted literal. -/
def isSkippedByte (b : UInt8) : Bool :=
  b = ' '.toUInt8 || b = '\t'.toUInt8 || b = '\n'.toUInt8 || b = '\r'.toUInt8

/-- Whether some bytes begin with the marker of a raw literal, and what stands after that. -/
def rawMarkerByte (bytes : List UInt8) : Bool × List UInt8 :=
  if bytes.head? = some 'r'.toUInt8 then (true, bytes.tail) else (false, bytes)

/-- How many bytes stand before the closing quote mark. A backslash takes away the meaning of the byte after
    it; `escaped` says that one has just been read. -/
def closingByte? (mark : UInt8) (escaped : Bool) : List UInt8 → Option Nat
  | [] => none
  | b :: rest =>
      let further (escaped : Bool) := (closingByte? mark escaped rest).map (1 + ·)
      if escaped then further false
      else if b = '\\'.toUInt8 then further true
      else if b = mark then some 0
      else further false

/-- A literal between quote marks, read from the bytes of the text. The position need not be one at which the
    text can be cut. -/
def bytewiseString : Recognizer := fun t pos =>
  let ahead := t.bytes.drop pos
  let start := pos + (ahead.takeWhile isSkippedByte).length
  let (raw, quoted) := rawMarkerByte (ahead.dropWhile isSkippedByte)
  match quoted with
  | [] => pure none
  | mark :: body =>
      if mark = '"'.toUInt8 ∨ mark = '\''.toUInt8 then
        match closingByte? mark false body with
        | none => pure none
        | some length => do
            let inner := start + (if raw then 2 else 1)
            let stop := inner + length + 1
            let extent ← Extent.ofRange t start stop ⟨pos, stop⟩
            return some (.string extent ⟨inner, inner + length⟩ raw)
      else pure none

/-! ## Blanks and marker -/

theorem isSkippedByte_eq (hb : b ∈ String.utf8EncodeChar c) : isSkippedByte b = isSkipped c := by
  simp only [isSkippedByte, isSkipped, eq_toUInt8_iff (a := ' ') rfl hb, eq_toUInt8_iff (a := '\t') rfl hb,
    eq_toUInt8_iff (a := '\n') rfl hb, eq_toUInt8_iff (a := '\r') rfl hb]

/-- Skipping by bytes and by characters stops at the same place: no byte of another character is a
    blank. -/
theorem takeWhile_isSkippedByte (t : Text) :
    t.bytes.takeWhile isSkippedByte = Text.bytes (t.takeWhile isSkipped) ∧
      t.bytes.dropWhile isSkippedByte = Text.bytes (t.dropWhile isSkipped) := by
  induction t with
  | nil => exact ⟨rfl, rfl⟩
  | cons c cs ih =>
      rw [bytes_cons]
      cases hc : isSkipped c with
      | true =>
          have hskipped : ∀ b ∈ String.utf8EncodeChar c, isSkippedByte b = true := by
            intro b hb
            rw [isSkippedByte_eq hb, hc]
          rw [List.takeWhile_append_of_pos hskipped, List.dropWhile_append_of_pos hskipped, ih.1, ih.2,
            List.takeWhile_cons_of_pos hc, List.dropWhile_cons_of_pos hc]
          exact ⟨rfl, rfl⟩
      | false =>
          obtain ⟨b, bs, hbytes⟩ := exists_utf8EncodeChar_eq_cons c
          have hb : isSkippedByte b = false := by
            rw [isSkippedByte_eq (c := c), hc]
            simp [hbytes]
          simp [hbytes, hb, hc]

/-- `rawMarkerByte` finds the marker among the bytes where `rawMarker` finds it among the characters, as
    it is one byte long. -/
theorem rawMarkerByte_bytes (t : Text) :
    rawMarkerByte t.bytes = ((rawMarker t).1, Text.bytes (rawMarker t).2) := by
  by_cases hmarker : t.head? = some 'r'
  · obtain ⟨more, rfl⟩ := List.head?_eq_some_iff.mp hmarker
    rfl
  · have hother : rawMarker t = (false, t) := by
      unfold rawMarker
      split
      next => exact absurd rfl hmarker
      next => rfl
    rw [hother, rawMarkerByte, if_neg fun hbyte => hmarker ((head?_bytes_eq_iff rfl).mp hbyte)]

/-! ## The closing mark -/

/-- `closingByte?` passes over bytes that have no meaning, the first of them also behind a backslash.
    These may be all the bytes of a wide character. -/
theorem closingByte?_append {mark : UInt8} {bytes more : List UInt8} (hbytes : bytes ≠ [])
    (h : ∀ b ∈ bytes, b ≠ '\\'.toUInt8 ∧ b ≠ mark) (escaped : Bool) :
    closingByte? mark escaped (bytes ++ more) = (closingByte? mark false more).map (bytes.length + ·) := by
  induction bytes generalizing escaped with
  | nil => exact absurd rfl hbytes
  | cons b bs ih =>
      obtain ⟨hbackslash, hmark⟩ := h b List.mem_cons_self
      have hfirst : closingByte? mark escaped (b :: (bs ++ more))
          = (closingByte? mark false (bs ++ more)).map (1 + ·) := by
        cases escaped <;> simp [closingByte?, hbackslash, hmark]
      rw [List.cons_append, hfirst]
      by_cases hbs : bs = []
      · subst hbs
        rfl
      · rw [ih hbs (fun b hb => h b (List.mem_cons_of_mem _ hb)), Option.map_map]
        congr 1
        funext n
        simp
        omega

/-- `closingByte?` stops where `closingQuote?` does: a wide character has no byte that is also the mark or
    a backslash. -/
theorem closingByte?_bytes (hmark : mark.utf8Size = 1) (escaped : Bool) (t : Text) :
    closingByte? mark.toUInt8 escaped t.bytes = closingQuote? mark escaped t := by
  induction t generalizing escaped with
  | nil => rfl
  | cons c cs ih =>
      rw [bytes_cons]
      by_cases hc : c.utf8Size = 1
      · have hbytes : String.utf8EncodeChar c = [c.toUInt8] := String.utf8EncodeChar_eq_singleton hc
        have hmem : c.toUInt8 ∈ String.utf8EncodeChar c := by simp [hbytes]
        simp only [hbytes, List.singleton_append, closingByte?, closingQuote?, hc, ih,
          eq_toUInt8_iff (a := '\\') rfl hmem, eq_toUInt8_iff hmark hmem]
      · have hbackslash : c ≠ '\\' := by
          rintro rfl
          exact hc rfl
        have hother : c ≠ mark := by
          rintro rfl
          exact hc hmark
        have hbytes : ∀ b ∈ String.utf8EncodeChar c, b ≠ '\\'.toUInt8 ∧ b ≠ mark.toUInt8 := by
          intro b hb
          rw [ne_eq, ne_eq, eq_toUInt8_iff (a := '\\') rfl hb, eq_toUInt8_iff hmark hb]
          exact ⟨hbackslash, hother⟩
        rw [closingByte?_append String.utf8EncodeChar_ne_nil hbytes, ih, String.length_utf8EncodeChar]
        cases escaped with
        | true => rfl
        | false => rw [closingQuote?_plain hother hbackslash]

/-! ## The whole literal -/

/-- At a cut the scan by bytes reads what `string` reads. -/
theorem bytewiseString_of_from? {rest : Text} {pos : Nat} (h : t.from? pos = some rest) :
    bytewiseString t pos = string t pos := by
  obtain ⟨htake, hdrop⟩ := takeWhile_isSkippedByte rest
  simp only [bytewiseString, string, h, drop_bytes_of_from? h, htake, hdrop, rawMarkerByte_bytes, length_bytes]
  cases hquoted : (rawMarker (rest.dropWhile isSkipped)).2 with
  | nil => rfl
  | cons mark body =>
      obtain ⟨b, bs, hbytes⟩ := exists_utf8EncodeChar_eq_cons mark
      have hb : b ∈ String.utf8EncodeChar mark := by simp [hbytes]
      simp only [bytes_cons, hbytes, List.cons_append, eq_toUInt8_iff (a := '"') rfl hb,
        eq_toUInt8_iff (a := '\'') rfl hb]
      by_cases hmark : mark = '"' ∨ mark = '\''
      · have hsize : mark.utf8Size = 1 := by
          rcases hmark with rfl | rfl <;> rfl
        rw [String.utf8EncodeChar_eq_singleton hsize] at hbytes
        obtain ⟨rfl, rfl⟩ := List.cons.inj hbytes
        have hclosing : closingByte? mark.val.toUInt8 false (Text.bytes body)
            = closingQuote? mark false body := closingByte?_bytes hsize false body
        rw [List.nil_append, if_pos hmark, if_pos hmark]
        cases hfound : closingQuote? mark false body with
        | none => simp only [hclosing, hfound]
        | some n => simp only [hclosing, hfound]
      · rw [if_neg hmark, if_neg hmark]

/-- Inside a character it reads nothing. -/
theorem bytewiseString_of_from?_none {pos : Nat} (h : t.from? pos = none) :
    bytewiseString t pos = pure none := by
  cases hahead : t.bytes.drop pos with
  | nil =>
      unfold bytewiseString
      rw [hahead]
      rfl
  | cons b bs =>
      have hb : 128 ≤ b.toNat := le_of_head?_drop_bytes h (by rw [hahead]; rfl)
      have hother {a : Char} (ha : a.utf8Size = 1) : b ≠ a.toUInt8 := ne_toUInt8_of_le ha hb
      have hskipped : isSkippedByte b = false := by
        simp [isSkippedByte, hother (a := ' ') rfl, hother (a := '\t') rfl, hother (a := '\n') rfl,
          hother (a := '\r') rfl]
      simp [bytewiseString, hahead, hskipped, rawMarkerByte, hother (a := 'r') rfl, hother (a := '"') rfl,
        hother (a := '\'') rfl]

/-- `bytewiseString` and `string` are one recogniser. -/
theorem bytewiseString_eq : bytewiseString = string := by
  funext t pos
  cases h : t.from? pos with
  | some rest => exact bytewiseString_of_from? h
  | none =>
      rw [bytewiseString_of_from?_none h, string, h]

end Recognizer

end Graft
