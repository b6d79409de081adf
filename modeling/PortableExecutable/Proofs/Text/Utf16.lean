import PortableExecutable.Text.Utf16

/-!
Decoding undoes encoding. What a text is encoded to is decoded to that text, whatever stands behind
it. Every surrogate pair is the encoding of one character, which is what it is decoded to, and a
surrogate outside a pair is replaced without a change to what follows.
-/

namespace PortableExecutable
namespace Utf16

/-- The units of a character: its number, or a pair of surrogates where that takes more than 16
bits. -/
def encodeChar (c : Char) : List UInt16 :=
  if c.toNat < 0x10000 then [UInt16.ofNat c.toNat]
  else [UInt16.ofNat (0xD800 + (c.toNat - 0x10000) / 0x400),
    UInt16.ofNat (0xDC00 + (c.toNat - 0x10000) % 0x400)]

def encode (text : String) : List UInt16 := text.toList.flatMap encodeChar

variable {u v : UInt16} {rest : List UInt16}

theorem isHighSurrogate_iff : isHighSurrogate u ↔ 0xD800 ≤ u.toNat ∧ u.toNat ≤ 0xDBFF := by
  rw [isHighSurrogate, Bool.and_eq_true, decide_eq_true_eq, decide_eq_true_eq]

theorem isLowSurrogate_iff : isLowSurrogate u ↔ 0xDC00 ≤ u.toNat ∧ u.toNat ≤ 0xDFFF := by
  rw [isLowSurrogate, Bool.and_eq_true, decide_eq_true_eq, decide_eq_true_eq]

theorem chars_pair (high : isHighSurrogate u) (low : isLowSurrogate v) :
    chars (u :: v :: rest) = pair u v :: chars rest := by
  rw [chars, high, low]
  rfl

/-- A unit that does not begin a pair is a character of its own. -/
theorem chars_single (unpaired : isHighSurrogate u → ∀ v ∈ rest.head?, ¬ isLowSurrogate v) :
    chars (u :: rest) = single u :: chars rest := by
  cases rest with
  | nil => rfl
  | cons v rest =>
      rw [chars, if_neg]
      rw [Bool.and_eq_true]
      exact fun ⟨high, low⟩ => unpaired high v rfl low

/-- What follows a surrogate outside a pair is decoded as if the surrogate were not there. -/
theorem chars_lone (surrogate : isHighSurrogate u ∨ isLowSurrogate u)
    (unpaired : isHighSurrogate u → ∀ v ∈ rest.head?, ¬ isLowSurrogate v) :
    chars (u :: rest) = '\ufffd' :: chars rest := by
  have replaced : single u = '\ufffd' := by
    rw [single, if_pos]
    rwa [Bool.or_eq_true]
  rw [chars_single unpaired, replaced]

theorem toNat_pair (high : isHighSurrogate u) (low : isLowSurrogate v) :
    (pair u v).toNat = 0x10000 + (u.toNat - 0xD800) * 0x400 + (v.toNat - 0xDC00) := by
  rw [isHighSurrogate_iff] at high
  rw [isLowSurrogate_iff] at low
  have valid : (0x10000 + (u.toNat - 0xD800) * 0x400 + (v.toNat - 0xDC00)).isValidChar := by
    rw [Nat.isValidChar]
    omega
  rw [pair, Char.ofNat, dif_pos valid]
  rfl

/-- A surrogate pair is what one character is encoded to, and is decoded to that character. -/
theorem encodeChar_pair (high : isHighSurrogate u) (low : isLowSurrogate v) :
    encodeChar (pair u v) = [u, v] := by
  have hNumber := toNat_pair high low
  rw [isHighSurrogate_iff] at high
  rw [isLowSurrogate_iff] at low
  have hHigh : 0xD800 + ((pair u v).toNat - 0x10000) / 0x400 = u.toNat := by omega
  have hLow : 0xDC00 + ((pair u v).toNat - 0x10000) % 0x400 = v.toNat := by omega
  rw [encodeChar, if_neg (by omega), hHigh, hLow, UInt16.ofNat_toNat, UInt16.ofNat_toNat]

/-- A character that needs two units is encoded to the pair that it comes from. -/
theorem encodeChar_of_wide {c : Char} (wide : 0x10000 ≤ c.toNat) :
    ∃ u v, encodeChar c = [u, v] ∧ isHighSurrogate u ∧ isLowSurrogate v ∧ pair u v = c := by
  have hSize : UInt16.size = 0x10000 := rfl
  have valid : c.toNat < 0xD800 ∨ 0xDFFF < c.toNat ∧ c.toNat < 0x110000 := c.valid
  have hHigh : (UInt16.ofNat (0xD800 + (c.toNat - 0x10000) / 0x400)).toNat =
      0xD800 + (c.toNat - 0x10000) / 0x400 := UInt16.toNat_ofNat_of_lt (by omega)
  have hLow : (UInt16.ofNat (0xDC00 + (c.toNat - 0x10000) % 0x400)).toNat =
      0xDC00 + (c.toNat - 0x10000) % 0x400 := UInt16.toNat_ofNat_of_lt (by omega)
  have high : isHighSurrogate (UInt16.ofNat (0xD800 + (c.toNat - 0x10000) / 0x400)) := by
    rw [isHighSurrogate_iff, hHigh]
    omega
  have low : isLowSurrogate (UInt16.ofNat (0xDC00 + (c.toNat - 0x10000) % 0x400)) := by
    rw [isLowSurrogate_iff, hLow]
    omega
  refine ⟨_, _, if_neg (by omega), high, low, Char.toNat_inj.mp ?_⟩
  rw [toNat_pair high low, hHigh, hLow]
  omega

theorem chars_encodeChar (c : Char) : chars (encodeChar c ++ rest) = c :: chars rest := by
  by_cases narrow : c.toNat < 0x10000
  · have valid : c.toNat < 0xD800 ∨ 0xDFFF < c.toNat ∧ c.toNat < 0x110000 := c.valid
    have hUnit : (UInt16.ofNat c.toNat).toNat = c.toNat := UInt16.toNat_ofNat_of_lt narrow
    have plain : ¬ (isHighSurrogate (UInt16.ofNat c.toNat) ∨
        isLowSurrogate (UInt16.ofNat c.toNat)) := by
      rw [isHighSurrogate_iff, isLowSurrogate_iff, hUnit]
      omega
    rw [encodeChar, if_pos narrow, List.singleton_append,
      chars_single fun high => absurd (.inl high) plain, single, if_neg, hUnit, Char.ofNat_toNat]
    rwa [Bool.or_eq_true]
  · obtain ⟨u, v, hUnits, high, low, hPair⟩ := encodeChar_of_wide (Nat.le_of_not_lt narrow)
    rw [hUnits, List.cons_append, List.singleton_append, chars_pair high low, hPair]

theorem chars_encode (text : List Char) :
    chars (text.flatMap encodeChar ++ rest) = text ++ chars rest := by
  induction text with
  | nil => rfl
  | cons c text ih =>
      rw [List.flatMap_cons, List.append_assoc, chars_encodeChar, ih, List.cons_append]

theorem decode_encode_append (text : String) :
    decode (encode text ++ rest) = text ++ decode rest := by
  rw [decode, encode, chars_encode, String.ofList_append, String.ofList_toList, decode]

/-- Well-formed text is decoded to itself. -/
theorem decode_encode (text : String) : decode (encode text) = text := by
  rw [← List.append_nil (encode text), decode_encode_append]
  exact String.append_empty

end Utf16
end PortableExecutable
