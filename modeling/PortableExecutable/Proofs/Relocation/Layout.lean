import Mathlib.Algebra.GroupWithZero.Nat
import PortableExecutable.Proofs.Headers.Encoding
import PortableExecutable.Relocation

/-!
Relocation blocks as bytes. A block encodes to its header and its words; the byte that is left over
in a block of odd size belongs to no word and may be missing at the end of the file. Where blocks
lie in a file one after the other, every place follows from the sizes before it, so that the file
and the declared size leave no choice of blocks.
-/

namespace PortableExecutable

def RelocationKind.code : RelocationKind → UInt8
  | absolute => 0
  | high => 1
  | low => 2
  | highLow => 3
  | highAdj => 4
  | dir64 => 10
  | other code => code

theorem RelocationKind.code_ofCode (code : UInt8) : (ofCode code).code = code := by
  rw [ofCode]
  split
  case h_7 => rfl
  all_goals exact (UInt8.toNat_inj.mp ‹_›).symm

namespace RelocationBlock

def encode (b : RelocationBlock) : List UInt8 :=
  Layout.ofWord32 b.pageRva ++ Layout.ofWord32 b.blockSize ++
    b.typeOffsets.flatMap Layout.ofWord16

/-- The bytes of the block that stand for something. -/
def encodedSize (b : RelocationBlock) : Nat := 8 + 2 * b.typeOffsets.length

theorem length_encode (b : RelocationBlock) : b.encode.length = b.encodedSize := by
  simp only [encode, encodedSize, List.length_append, Layout.length_ofWord32,
    Layout.length_flatMap_ofWord16]

theorem encode_injective {b b' : RelocationBlock} (h : b.encode = b'.encode) : b = b' := by
  obtain ⟨hHeader, hWords⟩ := List.append_inj h (by simp)
  obtain ⟨hPage, hSize⟩ := List.append_inj hHeader (by simp)
  cases b
  cases b'
  cases Layout.ofWord32_injective hPage
  cases Layout.ofWord32_injective hSize
  cases Layout.flatMap_ofWord16_injective hWords
  rfl

/-- The block is that of a file at a place, and its size counts its words. -/
structure LiesAt (b : RelocationBlock) (content : ByteArray) (offset : Nat) : Prop where
  header_le : 8 ≤ b.blockSize.toNat
  length_eq : b.typeOffsets.length = (b.blockSize.toNat - 8) / 2
  stored : Layout.bytes content offset b.encodedSize = b.encode

namespace LiesAt

variable {b b' : RelocationBlock} {content : ByteArray} {offset : Nat}

theorem end_le (h : b.LiesAt content offset) : offset + b.encodedSize ≤ content.size := by
  have hLength := congrArg List.length h.stored
  have hPositive : 0 < b.encodedSize := by rw [encodedSize]; omega
  rw [length_encode, Layout.bytes_eq_take_drop, List.length_take, List.length_drop,
    Array.length_toList, ByteArray.size_data] at hLength
  omega

theorem encodedSize_eq (h : b.LiesAt content offset) :
    b.encodedSize = 8 + (b.blockSize.toNat - 8) / 2 * 2 := by
  rw [encodedSize, h.length_eq, Nat.mul_comm]

/-- Only the byte left over in the last block may be missing from the file. -/
theorem next_le (h : b.LiesAt content offset) :
    offset + b.blockSize.toNat ≤ content.size + 1 := by
  have hEnd := h.end_le
  have hLe := h.header_le
  rw [h.encodedSize_eq] at hEnd
  omega

theorem header_eq (h : b.LiesAt content offset) :
    Layout.ofWord32 b.pageRva ++ Layout.ofWord32 b.blockSize =
      Layout.bytes content offset 8 := by
  have hInside : 0 + 8 ≤ b.encodedSize := by rw [encodedSize]; omega
  have hTake : ((Layout.bytes content offset b.encodedSize).drop 0).take 8 =
      Layout.bytes content offset 8 := Layout.take_drop_bytes hInside
  rw [← hTake, h.stored, encode, List.drop_zero, List.take_left' (by simp)]

/-- A place of a file has at most one block. -/
theorem unique (h : b.LiesAt content offset) (h' : b'.LiesAt content offset) : b = b' := by
  obtain ⟨-, hSize⟩ := List.append_inj (h.header_eq.trans h'.header_eq.symm) (by simp)
  have hBlock : b.blockSize = b'.blockSize := Layout.ofWord32_injective hSize
  have hEncoded : b.encodedSize = b'.encodedSize := by
    rw [h.encodedSize_eq, h'.encodedSize_eq, hBlock]
  apply encode_injective
  rw [← h.stored, ← h'.stored, hEncoded]

end LiesAt

/-- What is read of a block lies where it was read. -/
theorem liesAt_of_storedAt {content : ByteArray} {offset count : Nat} {header : Record 8}
    {words : Record (count * 2)} (hHeader : header.StoredAt content offset)
    (hWords : words.StoredAt content (offset + 8)) (header_le : 8 ≤ (header.u32 4).toNat)
    (hCount : count = ((header.u32 4).toNat - 8) / 2) :
    LiesAt ⟨header.u32 0, header.u32 4, words.table16⟩ content offset := by
  refine ⟨header_le, words.length_table16.trans hCount, ?_⟩
  rw [encode, encodedSize, hWords.table16, words.length_table16, Record.ofWord32_u32,
    Record.ofWord32_u32, Record.field_append _ _ _ rfl, hHeader.field, Nat.add_zero,
    Layout.bytes_append]

theorem LiesAt.blockSize_eq {b : RelocationBlock} {content : ByteArray} {offset : Nat}
    {header : Record 8} (h : b.LiesAt content offset) (hHeader : header.StoredAt content offset) :
    b.blockSize = header.u32 4 := by
  have hBytes := h.header_eq.trans hHeader.bytes_eq.symm
  rw [← header.field_whole rfl, ← header.field_append (i := 0) (m := 4) (n := 4) rfl rfl rfl]
    at hBytes
  obtain ⟨-, hSize⟩ := List.append_inj hBytes (by simp [Record.length_field])
  exact Layout.ofWord32_injective (hSize.trans (header.ofWord32_u32 rfl).symm)

end RelocationBlock

namespace Relocation

/-- The bytes that blocks take up, with what is left over in those of odd size. -/
def span (blocks : List RelocationBlock) : Nat := (blocks.map (·.blockSize.toNat)).sum

/-- The blocks lie in the file one after the other, from a place on, and fill the given size. -/
structure Tiling (content : ByteArray) (offset size : Nat) (blocks : List RelocationBlock) :
    Prop where
  fills : span blocks = size
  lies : ∀ k (h : k < blocks.length), blocks[k].LiesAt content (offset + span (blocks.take k))

variable {content : ByteArray} {offset size : Nat} {b : RelocationBlock}
  {blocks blocks' : List RelocationBlock}

theorem span_cons : span (b :: blocks) = b.blockSize.toNat + span blocks := by
  rw [span, span, List.map_cons, List.sum_cons]

theorem tiling_nil_iff : Tiling content offset size [] ↔ size = 0 :=
  ⟨fun h => h.fills.symm, fun h => ⟨h.symm, fun _ hk => absurd hk (Nat.not_lt_zero _)⟩⟩

theorem tiling_cons_iff :
    Tiling content offset size (b :: blocks) ↔
      b.LiesAt content offset ∧ b.blockSize.toNat ≤ size ∧
        Tiling content (offset + b.blockSize.toNat) (size - b.blockSize.toNat) blocks := by
  constructor
  · intro h
    obtain ⟨fills, lies⟩ := h
    rw [span_cons] at fills
    refine ⟨lies 0 (Nat.zero_lt_succ _), by omega, by omega, fun k hk => ?_⟩
    have hNext := lies (k + 1) (Nat.succ_lt_succ hk)
    rwa [List.take_succ_cons, span_cons, ← Nat.add_assoc] at hNext
  · intro h
    obtain ⟨first, hSize, fills, lies⟩ := h
    refine ⟨by rw [span_cons]; omega, fun k hk => ?_⟩
    cases k with
    | zero => exact first
    | succ k =>
        rw [List.take_succ_cons, span_cons, ← Nat.add_assoc]
        exact lies k (Nat.lt_of_succ_lt_succ hk)

/-- Blocks that fill anything begin with one. -/
theorem exists_tiling_iff (hSize : size ≠ 0) :
    (∃ blocks, Tiling content offset size blocks) ↔
      ∃ b : RelocationBlock, b.LiesAt content offset ∧ b.blockSize.toNat ≤ size ∧
        ∃ rest, Tiling content (offset + b.blockSize.toNat) (size - b.blockSize.toNat) rest := by
  constructor
  · intro h
    obtain ⟨blocks, hTiling⟩ := h
    cases blocks with
    | nil => exact absurd (tiling_nil_iff.mp hTiling) hSize
    | cons b rest =>
        obtain ⟨first, hFits, hRest⟩ := tiling_cons_iff.mp hTiling
        exact ⟨b, first, hFits, rest, hRest⟩
  · intro h
    obtain ⟨b, first, hFits, rest, hRest⟩ := h
    exact ⟨b :: rest, tiling_cons_iff.mpr ⟨first, hFits, hRest⟩⟩

theorem Tiling.unique (h : Tiling content offset size blocks)
    (h' : Tiling content offset size blocks') : blocks = blocks' := by
  induction blocks generalizing offset size blocks' with
  | nil =>
      cases blocks' with
      | nil => rfl
      | cons b' rest' =>
          obtain ⟨first, hSize, -⟩ := tiling_cons_iff.mp h'
          have hLe := first.header_le
          have hZero := tiling_nil_iff.mp h
          omega
  | cons b rest ih =>
      obtain ⟨first, hSize, hRest⟩ := tiling_cons_iff.mp h
      cases blocks' with
      | nil =>
          have hLe := first.header_le
          have hZero := tiling_nil_iff.mp h'
          omega
      | cons b' rest' =>
          obtain ⟨first', -, hRest'⟩ := tiling_cons_iff.mp h'
          cases first.unique first'
          rw [ih hRest hRest']

end Relocation
end PortableExecutable
