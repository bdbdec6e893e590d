import Graft.Proofs.Text.Cut

/-!
# `Graft.Proofs.Text.Bytes` — texts and their encodings

Positions count the bytes of the UTF-8 encoding of a text (`Text.bytes`), so what is ahead of a position is the
encoding of what the text is ahead of it (`drop_bytes_of_from?`). A reader that looks at single bytes for a
character of one byte finds this character and nothing else: no byte of a longer character can be taken for it
(`eq_toUInt8_iff`, `getElem?_bytes_eq_iff`).
-/

namespace Graft

namespace Text

variable {t rest : Text} {pos : Nat} {a c : Char} {b : UInt8}

/-! ## The bytes of one character -/

/-- The bytes of a character with a `utf8Size` above one have the highest bit. -/
theorem le_of_mem_utf8EncodeChar (hc : c.utf8Size ≠ 1) (hb : b ∈ String.utf8EncodeChar c) :
    128 ≤ b.toNat := by
  have marked (x y : UInt8) (hy : 128 ≤ y.toNat) : 128 ≤ (x ||| y).toNat := by
    rw [UInt8.toNat_or]
    exact Nat.le_trans hy Nat.right_le_or
  rcases c.utf8Size_eq with h | h | h | h
  · exact absurd h hc
  · rw [String.utf8EncodeChar_eq_cons_cons h] at hb
    simp only [List.mem_cons, List.not_mem_nil, or_false] at hb
    rcases hb with rfl | rfl <;> exact marked _ _ (by decide)
  · rw [String.utf8EncodeChar_eq_cons_cons_cons h] at hb
    simp only [List.mem_cons, List.not_mem_nil, or_false] at hb
    rcases hb with rfl | rfl | rfl <;> exact marked _ _ (by decide)
  · rw [String.utf8EncodeChar_eq_cons_cons_cons_cons h] at hb
    simp only [List.mem_cons, List.not_mem_nil, or_false] at hb
    rcases hb with rfl | rfl | rfl | rfl <;> exact marked _ _ (by decide)

theorem toNat_toUInt8 (hc : c.utf8Size = 1) : c.toUInt8.toNat = c.toNat ∧ c.toNat < 128 := by
  have hlt : c.val.toNat ≤ 127 := UInt32.le_iff_toNat_le.mp (Char.utf8Size_eq_one_iff.mp hc)
  constructor
  · show c.val.toUInt8.toNat = c.val.toNat
    rw [UInt32.toNat_toUInt8]
    omega
  · show c.val.toNat < 128
    omega

/-- The other half of `le_of_mem_utf8EncodeChar`: a character of one byte does not have the highest
    bit. -/
theorem ne_toUInt8_of_le (ha : a.utf8Size = 1) (hb : 128 ≤ b.toNat) : b ≠ a.toUInt8 := by
  rintro rfl
  have := toNat_toUInt8 ha
  omega

/-- So a character of one byte is told from all others by any byte of theirs. -/
theorem eq_toUInt8_iff (ha : a.utf8Size = 1) (hb : b ∈ String.utf8EncodeChar c) :
    b = a.toUInt8 ↔ c = a := by
  by_cases hc : c.utf8Size = 1
  · rw [String.utf8EncodeChar_eq_singleton hc] at hb
    obtain rfl : b = c.toUInt8 := List.mem_singleton.mp hb
    rw [← UInt8.toNat_inj, (toNat_toUInt8 hc).1, (toNat_toUInt8 ha).1, Char.toNat_inj]
  · constructor
    · intro hbyte
      exact absurd hbyte (ne_toUInt8_of_le ha (le_of_mem_utf8EncodeChar hc hb))
    · rintro rfl
      exact absurd ha hc

/-! ## The bytes of a text -/

/-- The UTF-8 encoding of a text. -/
def bytes (t : Text) : List UInt8 :=
  t.flatMap String.utf8EncodeChar

@[simp] theorem bytes_nil : bytes [] = [] := rfl

@[simp] theorem bytes_cons (c : Char) (cs : Text) :
    bytes (c :: cs) = String.utf8EncodeChar c ++ bytes cs := rfl

@[simp] theorem bytes_append (s t : Text) : bytes (s ++ t) = bytes s ++ bytes t :=
  List.flatMap_append

/-- Positions count `bytes`. -/
@[simp] theorem length_bytes (t : Text) : t.bytes.length = t.size := by
  induction t with
  | nil => rfl
  | cons c cs ih => simp [ih]

/-- `bytes` commutes with cutting: behind a cut there are the bytes of what `from?` gives. -/
theorem drop_bytes_of_from? (h : t.from? pos = some rest) : t.bytes.drop pos = rest.bytes := by
  obtain ⟨s, rfl, rfl⟩ := exists_of_from? h
  rw [bytes_append, ← length_bytes, List.drop_left]

/-- Where `from?` fails within a text, the next byte is inside a character, and has the highest bit. -/
theorem le_of_head?_drop_bytes (h : t.from? pos = none) (hb : (t.bytes.drop pos).head? = some b) :
    128 ≤ b.toNat := by
  induction t generalizing pos with
  | nil => simp at hb
  | cons c cs ih =>
      have hpos : pos ≠ 0 := by
        rintro rfl
        simp at h
      rw [from?, if_neg hpos] at h
      rw [bytes_cons, List.drop_append] at hb
      by_cases hc : c.utf8Size ≤ pos
      · rw [if_pos hc] at h
        have hpassed : (String.utf8EncodeChar c).drop pos = [] := by
          rw [List.drop_eq_nil_iff, String.length_utf8EncodeChar]
          exact hc
        rw [hpassed, List.nil_append, String.length_utf8EncodeChar] at hb
        exact ih h hb
      · have hlength := String.length_utf8EncodeChar c
        have hinside : (String.utf8EncodeChar c).drop pos ≠ [] := by
          rw [ne_eq, List.drop_eq_nil_iff]
          omega
        obtain ⟨first, more, hdrop⟩ := List.exists_cons_of_ne_nil hinside
        rw [hdrop] at hb
        obtain rfl : first = b := Option.some.inj hb
        have hmem : first ∈ (String.utf8EncodeChar c).drop pos := by
          rw [hdrop]
          exact List.mem_cons_self
        exact le_of_mem_utf8EncodeChar (by omega) (List.mem_of_mem_drop hmem)

/-! ## Looking for one character -/

/-- Every character has a first byte, so that the `bytes` of a text begin where the text does. -/
theorem exists_utf8EncodeChar_eq_cons (c : Char) : ∃ b bs, String.utf8EncodeChar c = b :: bs :=
  List.exists_cons_of_ne_nil String.utf8EncodeChar_ne_nil

/-- `eq_toUInt8_iff` at the start of a text. -/
theorem head?_bytes_eq_iff (ha : a.utf8Size = 1) :
    t.bytes.head? = some a.toUInt8 ↔ t.head? = some a := by
  cases t with
  | nil => simp
  | cons c cs =>
      obtain ⟨b, bs, hbytes⟩ := exists_utf8EncodeChar_eq_cons c
      rw [bytes_cons, hbytes, List.cons_append, List.head?_cons, List.head?_cons, Option.some.injEq,
        Option.some.injEq, eq_toUInt8_iff (c := c) ha (by simp [hbytes])]

/-- Indexing `bytes` finds a character of one byte exactly where `slice?` does. A position inside a
    character has one of its bytes, which is another one by `le_of_head?_drop_bytes`. -/
theorem getElem?_bytes_eq_iff (ha : a.utf8Size = 1) :
    t.bytes[pos]? = some a.toUInt8 ↔ t.slice? pos (pos + 1) = some [a] := by
  rw [← List.head?_drop, slice?_eq_some_iff]
  constructor
  · intro h
    cases hfrom : t.from? pos with
    | none => exact absurd rfl (ne_toUInt8_of_le ha (le_of_head?_drop_bytes hfrom h))
    | some rest =>
        rw [drop_bytes_of_from? hfrom, head?_bytes_eq_iff ha] at h
        obtain ⟨r, rfl⟩ := List.head?_eq_some_iff.mp h
        obtain ⟨s, rfl, rfl⟩ := exists_of_from? hfrom
        exact ⟨s, r, by simp, rfl, by simp [ha]⟩
  · rintro ⟨s, r, rfl, rfl, -⟩
    have hfrom := from?_size_append s (a :: r)
    rw [List.singleton_append, drop_bytes_of_from? hfrom, head?_bytes_eq_iff ha]
    rfl

end Text

end Graft
