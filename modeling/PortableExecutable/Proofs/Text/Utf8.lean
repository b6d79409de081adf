import Mathlib.Algebra.Group.Nat.Defs
import Mathlib.Tactic.SplitIfs
import PortableExecutable.Text.Utf8

/-!
Decoded text has no zero in it unless the bytes have one. A character of several bytes is at no
point of its reading one that could still come out as zero or as no character at all: the ranges
that lead bytes allow for the second byte see to that, and further bytes only narrow the number
down.

Text that is well-formed is decoded to itself. Beyond the byte that leads it, the encoding of a
character consists of digits of six bits, which the decoder puts together again one by one.
-/

namespace PortableExecutable
namespace Utf8

/-- However the missing bytes continue a number, a character comes of it, and not zero. -/
structure Completes (value missing : Nat) : Prop where
  positive : 0 < value
  valid : ∀ n, value * 64 ^ missing ≤ n → n < (value + 1) * 64 ^ missing → n.isValidChar

theorem Completes.continued {value missing c : Nat} (h : Completes value (missing + 1))
    (hc : c < 64) : Completes (value * 64 + c) missing := by
  have positive := h.positive
  have hPower : 64 ^ (missing + 1) = 64 * 64 ^ missing := Nat.pow_succ'
  refine ⟨by omega, fun n above below => h.valid n ?_ ?_⟩
  · calc value * 64 ^ (missing + 1) = value * 64 * 64 ^ missing := by rw [hPower, Nat.mul_assoc]
      _ ≤ (value * 64 + c) * 64 ^ missing := Nat.mul_le_mul_right _ (Nat.le_add_right _ _)
      _ ≤ n := above
  · calc n < (value * 64 + c + 1) * 64 ^ missing := below
      _ ≤ (value + 1) * 64 * 64 ^ missing := Nat.mul_le_mul_right _ (by omega)
      _ = (value + 1) * 64 ^ (missing + 1) := by rw [hPower, Nat.mul_assoc]

/-- The next byte is a continuation byte, and what it makes of the number can be completed. -/
structure Pending.Sound (p : Pending) : Prop where
  missing_pos : 0 < p.missing
  low_ge : 0x80 ≤ p.low
  high_le : p.high ≤ 0xBF
  completes : ∀ b, p.low ≤ b → b ≤ p.high →
    Completes (p.value * 64 + (b - 0x80)) (p.missing - 1)

/-- Of the second bytes it is enough to look at the least and the greatest. -/
theorem Pending.sound_of_ends {value missing low high : Nat} (missing_pos : 0 < missing)
    (low_ge : 0x80 ≤ low) (high_le : high ≤ 0xBF) (positive : 0 < value * 64 + (low - 0x80))
    (ends : (value * 64 + (high - 0x80) + 1) * 64 ^ (missing - 1) ≤ 0xD800 ∨
      0xE000 ≤ (value * 64 + (low - 0x80)) * 64 ^ (missing - 1) ∧
        (value * 64 + (high - 0x80) + 1) * 64 ^ (missing - 1) ≤ 0x110000) :
    Pending.Sound ⟨value, missing, low, high⟩ := by
  refine ⟨missing_pos, low_ge, high_le, fun b hLow hHigh => ?_⟩
  dsimp only at hLow hHigh ⊢
  refine ⟨by omega, fun n above below => ?_⟩
  have least : (value * 64 + (low - 0x80)) * 64 ^ (missing - 1) ≤
      (value * 64 + (b - 0x80)) * 64 ^ (missing - 1) := Nat.mul_le_mul_right _ (by omega)
  have greatest : (value * 64 + (b - 0x80) + 1) * 64 ^ (missing - 1) ≤
      (value * 64 + (high - 0x80) + 1) * 64 ^ (missing - 1) :=
    Nat.mul_le_mul_right _ (by omega)
  rw [Nat.isValidChar]
  omega

theorem sound_lead {b : Nat} {p : Pending} (h : lead b = some p) : p.Sound := by
  unfold lead at h
  -- one case for each row of the table of well-formed sequences
  split_ifs at h
  all_goals
    obtain rfl := Option.some.inj h
    refine Pending.sound_of_ends ?_ ?_ ?_ ?_ ?_ <;> omega

theorem ofNat_ne_zero {n : Nat} (valid : n.isValidChar) (positive : 0 < n) :
    Char.ofNat n ≠ '\x00' := by
  intro zero
  have hNat : (Char.ofNat n).toNat = n := by
    rw [Char.ofNat, dif_pos valid]
    rfl
  rw [zero] at hNat
  exact absurd hNat (Nat.ne_of_lt positive)

/-- What has been read of a character, if anything, can be completed. -/
def SoundState (state : Option Pending) : Prop := ∀ p ∈ state, p.Sound

/-- A step writes no zero and leaves behind what can be completed. -/
structure Harmless (r : List Char × Option Pending) : Prop where
  written : '\x00' ∉ r.1
  pending : SoundState r.2

theorem replacement_ne_zero : '\x00' ≠ replacement := by decide

theorem harmless_start {b : Nat} (nonzero : b ≠ 0) : Harmless (start b) := by
  unfold start
  split
  case isTrue ascii =>
    have valid : b.isValidChar := .inl (by omega)
    refine ⟨?_, fun p hp => nomatch hp⟩
    rw [List.mem_singleton]
    exact (ofNat_ne_zero valid (Nat.pos_of_ne_zero nonzero)).symm
  case isFalse =>
    split
    case h_1 p hLead =>
      refine ⟨List.not_mem_nil, ?_⟩
      rintro p' ⟨⟩
      exact sound_lead hLead
    case h_2 =>
      refine ⟨?_, fun p hp => nomatch hp⟩
      rw [List.mem_singleton]
      exact replacement_ne_zero

theorem harmless_step {state : Option Pending} {b : Nat} (h : SoundState state)
    (nonzero : b ≠ 0) : Harmless (step state b) := by
  cases state with
  | none => exact harmless_start nonzero
  | some p =>
      obtain ⟨missing_pos, low_ge, high_le, completes⟩ := h p rfl
      unfold step
      dsimp only
      split
      case isTrue within =>
        have hValue := completes b within.1 within.2
        split
        case isTrue last =>
          rw [last] at hValue
          refine ⟨?_, fun p hp => nomatch hp⟩
          rw [List.mem_singleton]
          have valid := hValue.valid (p.value * 64 + (b - 0x80)) (by omega) (by omega)
          exact (ofNat_ne_zero valid hValue.positive).symm
        case isFalse more =>
          refine ⟨List.not_mem_nil, fun p' hp => ?_⟩
          obtain rfl := Option.mem_some_iff.mp hp
          refine ⟨by dsimp only; omega, Nat.le_refl _, Nat.le_refl _, fun c hLow hHigh => ?_⟩
          dsimp only at hLow hHigh ⊢
          refine Completes.continued ?_ (by omega)
          rwa [Nat.sub_add_cancel (by omega)]
      case isFalse outside =>
        have hStart := harmless_start nonzero
        refine ⟨?_, hStart.pending⟩
        rw [List.mem_cons, not_or]
        exact ⟨replacement_ne_zero, hStart.written⟩

theorem zero_not_mem_decodeFrom {state : Option Pending} {bytes : List UInt8}
    (h : SoundState state) (nonzero : 0 ∉ bytes) : '\x00' ∉ decodeFrom state bytes := by
  induction bytes generalizing state with
  | nil =>
      cases state with
      | none => exact List.not_mem_nil
      | some p =>
          rw [decodeFrom, List.mem_singleton]
          exact replacement_ne_zero
  | cons b rest ih =>
      rw [List.mem_cons, not_or] at nonzero
      have hByte : b.toNat ≠ 0 := fun zero => nonzero.1 (UInt8.toNat_inj.mp zero).symm
      have hStep := harmless_step h hByte
      rw [decodeFrom, List.mem_append, not_or]
      exact ⟨hStep.written, ih hStep.pending nonzero.2⟩

theorem zero_not_mem_decode {bytes : List UInt8} (nonzero : 0 ∉ bytes) :
    '\x00' ∉ (decode bytes).toList := by
  rw [decode, String.toList_ofList]
  exact zero_not_mem_decodeFrom (fun p hp => nomatch hp) nonzero

/-- The continuation bytes that end the encoding of a number. Each has six of its bits. -/
def continuation (n : Nat) : Nat → List UInt8
  | 0 => []
  | k + 1 => UInt8.ofNat (n / 64 ^ k % 64 + 0x80) :: continuation n k

theorem toNat_digit (n k : Nat) :
    (UInt8.ofNat (n / 64 ^ k % 64 + 0x80)).toNat = n / 64 ^ k % 64 + 0x80 := by
  have hDigit : n / 64 ^ k % 64 < 64 := Nat.mod_lt _ (by decide)
  exact UInt8.toNat_ofNat_of_lt' (Nat.lt_trans (Nat.add_lt_add_right hDigit 0x80) (by decide))

/-- What is pending is the start of a number whose last digits of six bits are still to come. -/
structure Pending.Begins (p : Pending) (n k : Nat) : Prop where
  missing_eq : p.missing = k + 1
  value_eq : p.value = n / 64 ^ (k + 1)
  low_le : p.low ≤ n / 64 ^ k % 64 + 0x80
  le_high : n / 64 ^ k % 64 + 0x80 ≤ p.high

variable {p : Pending} {n k : Nat} {rest : List UInt8}

theorem Pending.Begins.value_continued (h : p.Begins n k) :
    p.value * 64 + (n / 64 ^ k % 64 + 0x80 - 0x80) = n / 64 ^ k := by
  have hPower : n / 64 ^ (k + 1) = n / 64 ^ k / 64 := by
    rw [Nat.pow_succ, Nat.div_div_eq_div_mul]
  rw [h.value_eq, hPower]
  omega

/-- The digits that are still to come are put behind those that were read. -/
theorem decodeFrom_continuation (h : p.Begins n k) :
    decodeFrom (some p) (continuation n (k + 1) ++ rest) =
      Char.ofNat n :: decodeFrom none rest := by
  induction k generalizing p with
  | zero =>
      rw [continuation, continuation, List.singleton_append, decodeFrom, toNat_digit, step,
        if_pos ⟨h.low_le, h.le_high⟩]
      dsimp only
      rw [if_pos h.missing_eq, h.value_continued, Nat.pow_zero, Nat.div_one]
      rfl
  | succ k ih =>
      have hMissing := h.missing_eq
      have next : Pending.Begins ⟨n / 64 ^ (k + 1), p.missing - 1, 0x80, 0xBF⟩ n k :=
        ⟨by rw [hMissing]; rfl, rfl, by dsimp only; omega, by dsimp only; omega⟩
      rw [continuation, List.cons_append, decodeFrom, toNat_digit, step,
        if_pos ⟨h.low_le, h.le_high⟩]
      dsimp only
      rw [if_neg (by omega), h.value_continued]
      exact ih next

theorem exists_begins_of_two (above : 0x80 ≤ n) (below : n < 0x800) :
    ∃ p, lead (n / 64 % 32 + 0xC0) = some p ∧ p.Begins n 0 := by
  refine ⟨_, if_pos (by omega), rfl, ?_, ?_, ?_⟩
  all_goals
    dsimp only
    omega

theorem exists_begins_of_three (above : 0x800 ≤ n) (below : n < 0x10000)
    (valid : n.isValidChar) : ∃ p, lead (n / 4096 % 16 + 0xE0) = some p ∧ p.Begins n 1 := by
  rw [Nat.isValidChar] at valid
  unfold lead
  rw [if_neg (by omega)]
  -- a row of the table either contradicts the bounds or is the one for this number
  split_ifs
  all_goals first
    | omega
    | refine ⟨_, rfl, rfl, ?_, ?_, ?_⟩ <;> dsimp only <;> omega

theorem exists_begins_of_four (above : 0x10000 ≤ n) (valid : n.isValidChar) :
    ∃ p, lead (n / 262144 % 8 + 0xF0) = some p ∧ p.Begins n 2 := by
  rw [Nat.isValidChar] at valid
  unfold lead
  rw [if_neg (by omega), if_neg (by omega), if_neg (by omega), if_neg (by omega)]
  split_ifs
  all_goals first
    | omega
    | refine ⟨_, rfl, rfl, ?_, ?_, ?_⟩ <;> dsimp only <;> omega

theorem utf8EncodeChar_eq (c : Char) :
    String.utf8EncodeChar c =
      if c.toNat ≤ 0x7F then [UInt8.ofNat c.toNat]
      else if c.toNat ≤ 0x7FF then
        UInt8.ofNat (c.toNat / 64 % 32 + 0xC0) :: continuation c.toNat 1
      else if c.toNat ≤ 0xFFFF then
        UInt8.ofNat (c.toNat / 4096 % 16 + 0xE0) :: continuation c.toNat 2
      else UInt8.ofNat (c.toNat / 262144 % 8 + 0xF0) :: continuation c.toNat 3 := by
  have hDigit : c.toNat / 64 ^ 0 = c.toNat := by rw [Nat.pow_zero, Nat.div_one]
  simp only [continuation, hDigit]
  rfl

theorem decodeFrom_lead {c : Char} {b : Nat} (small : b < 256) (beyond : 0x80 ≤ b)
    (h : ∃ p, lead b = some p ∧ p.Begins c.toNat k) :
    decodeFrom none (UInt8.ofNat b :: continuation c.toNat (k + 1) ++ rest) =
      c :: decodeFrom none rest := by
  obtain ⟨p, hLead, begins⟩ := h
  rw [List.cons_append, decodeFrom, UInt8.toNat_ofNat_of_lt' small, step, start,
    if_neg (by omega), hLead]
  dsimp only
  rw [List.nil_append, decodeFrom_continuation begins, Char.ofNat_toNat]

theorem decodeFrom_utf8EncodeChar (c : Char) :
    decodeFrom none (String.utf8EncodeChar c ++ rest) = c :: decodeFrom none rest := by
  have valid : c.toNat.isValidChar := c.valid
  rw [utf8EncodeChar_eq]
  split
  case isTrue ascii =>
    have hByte : (UInt8.ofNat c.toNat).toNat = c.toNat :=
      UInt8.toNat_ofNat_of_lt' (Nat.lt_of_le_of_lt ascii (by decide))
    rw [List.singleton_append, decodeFrom, hByte, step, start, if_pos (by omega), Char.ofNat_toNat]
    rfl
  case isFalse =>
    split
    case isTrue =>
      exact decodeFrom_lead (by omega) (by omega) (exists_begins_of_two (by omega) (by omega))
    case isFalse =>
      split
      case isTrue =>
        exact decodeFrom_lead (by omega) (by omega)
          (exists_begins_of_three (by omega) (by omega) valid)
      case isFalse =>
        exact decodeFrom_lead (by omega) (by omega) (exists_begins_of_four (by omega) valid)

theorem decodeFrom_utf8Encode (text : List Char) :
    decodeFrom none (text.flatMap String.utf8EncodeChar ++ rest) =
      text ++ decodeFrom none rest := by
  induction text with
  | nil => rfl
  | cons c text ih =>
      rw [List.flatMap_cons, List.append_assoc, decodeFrom_utf8EncodeChar, ih, List.cons_append]

theorem toList_data_toByteArray (text : String) :
    text.toByteArray.data.toList = text.toList.flatMap String.utf8EncodeChar := by
  rw [← String.utf8Encode_toList, List.utf8Encode, List.toList_data_toByteArray]

theorem decode_toByteArray_append (text : String) :
    decode (text.toByteArray.data.toList ++ rest) = text ++ decode rest := by
  rw [toList_data_toByteArray, decode, decodeFrom_utf8Encode, String.ofList_append,
    String.ofList_toList, decode]

/-- Well-formed text is decoded to itself. -/
theorem decode_toByteArray (text : String) : decode text.toByteArray.data.toList = text := by
  rw [← List.append_nil text.toByteArray.data.toList, decode_toByteArray_append]
  exact String.append_empty

/-- A character that breaks off is replaced, and the byte that does not continue it is read as if
nothing came before. -/
theorem decodeFrom_broken {b : UInt8} (outside : ¬ (p.low ≤ b.toNat ∧ b.toNat ≤ p.high)) :
    decodeFrom (some p) (b :: rest) = replacement :: decodeFrom none (b :: rest) := by
  rw [decodeFrom, step, if_neg outside, decodeFrom]
  rfl

end Utf8
end PortableExecutable
