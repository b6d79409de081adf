import Mathlib.Algebra.Group.Nat.Defs
import PortableExecutable.Record

/-!
Where the contents of a record stand in a file. A field of a record that is stored at a place is a
stretch of the file, and a word is the number that the file has there; from the words the bytes
come back.
-/

namespace PortableExecutable
namespace LittleEndian

theorem decode_lt (bytes : List UInt8) : decode bytes < 256 ^ bytes.length := by
  induction bytes with
  | nil => simp [decode]
  | cons b rest ih =>
    have hb : b.toNat < 256 := b.toNat_lt
    simp only [decode, List.length_cons, Nat.pow_succ]
    omega

theorem decode_encode (width n : Nat) : decode (encode width n) = n % 256 ^ width := by
  induction width generalizing n with
  | zero => simp [encode, decode, Nat.mod_one]
  | succ width ih =>
    have step : n % 256 ^ (width + 1) = n % 256 + 256 * (n / 256 % 256 ^ width) := by
      rw [Nat.pow_succ', Nat.mod_mul]
    simp [encode, decode, ih, step]

theorem encode_injective {width n m : Nat} (hn : n < 256 ^ width) (hm : m < 256 ^ width)
    (h : encode width n = encode width m) : n = m := by
  have hDecoded := congrArg decode h
  rwa [decode_encode, decode_encode, Nat.mod_eq_of_lt hn, Nat.mod_eq_of_lt hm] at hDecoded

end LittleEndian

namespace Layout

/-- A stretch of a file, as far as the file goes. -/
def bytes (content : ByteArray) (offset count : Nat) : List UInt8 :=
  (content.extract offset (offset + count)).data.toList

-- closed to unification, which would otherwise decode bytes to compare two places
/-- The little-endian number that a file has at a place. -/
@[irreducible] def number (content : ByteArray) (offset width : Nat) : Nat :=
  LittleEndian.decode (bytes content offset width)

/-- An entry of a table of 16-bit words. -/
def entry16 (content : ByteArray) (table i : Nat) : Nat := number content (table + 2 * i) 2

/-- An entry of a table of 32-bit words. -/
def entry32 (content : ByteArray) (table i : Nat) : Nat := number content (table + 4 * i) 4

/-- A stretch of a file as a vector, with zeros where the file has ended. -/
def raw (content : ByteArray) (offset count : Nat) : Vector UInt8 count :=
  Vector.ofFn fun k => (bytes content offset count).getD k 0

variable {content : ByteArray}

theorem bytes_eq_take_drop (offset count : Nat) :
    bytes content offset count = (content.data.toList.drop offset).take count := by
  rw [bytes, ByteArray.data_extract, Array.toList_extract, List.extract, Nat.add_sub_cancel_left]

theorem length_bytes {offset count : Nat} (h : offset + count ≤ content.size) :
    (bytes content offset count).length = count := by
  rw [bytes_eq_take_drop, List.length_take, List.length_drop, Array.length_toList,
    ByteArray.size_data]
  omega

theorem number_lt (offset width : Nat) : number content offset width < 256 ^ width := by
  have hLength : (bytes content offset width).length ≤ width := by
    rw [bytes_eq_take_drop]
    exact List.length_take_le _ _
  rw [number]
  exact Nat.lt_of_lt_of_le (LittleEndian.decode_lt _) (Nat.pow_le_pow_right (by decide) hLength)

/-- Stretches that follow each other make one stretch. -/
theorem bytes_append (offset m n : Nat) :
    bytes content offset m ++ bytes content (offset + m) n = bytes content offset (m + n) := by
  simp only [bytes_eq_take_drop, List.take_add, List.drop_drop]

/-- A stretch inside a stretch. -/
theorem take_drop_bytes {offset width i count : Nat} (h : i + count ≤ width) :
    ((bytes content offset width).drop i).take count = bytes content (offset + i) count := by
  rw [bytes_eq_take_drop, bytes_eq_take_drop, List.drop_take, List.take_take, List.drop_drop,
    Nat.min_eq_left (by omega)]

theorem toList_raw {offset count : Nat} (h : (bytes content offset count).length = count) :
    (raw content offset count).toList = bytes content offset count := by
  apply List.ext_getElem
  · rw [h, Vector.length_toList]
  · intro k _ hk
    simp [raw, List.getD_eq_getElem?_getD, List.getElem?_eq_getElem hk]

end Layout

namespace Record

variable {width : Nat} (r : Record width)

theorem field_eq_take_drop {i count : Nat} (h : fits i count width = true) :
    r.field i count h = (r.bytes.data.toList.drop i).take count := by
  have hSize := r.size_eq
  have inside := fits_iff.mp h
  rw [field]
  apply List.ext_getElem
  · rw [List.length_ofFn, List.length_take, List.length_drop, Array.length_toList,
      ByteArray.size_data]
    omega
  · intro k _ _
    rw [List.getElem_ofFn, List.getElem_take, List.getElem_drop, Array.getElem_toList]
    rfl

/-- All of a record is one field. -/
theorem field_whole (h : fits 0 width width = true) :
    r.field 0 width h = r.bytes.data.toList := by
  have hLength : r.bytes.data.toList.length ≤ width := Nat.le_of_eq r.size_eq
  rw [field_eq_take_drop, List.drop_zero, List.take_of_length_le hLength]

theorem fits_append {i m j n : Nat} (h : fits j n width = true) (next : i + m = j) :
    fits i (m + n) width = true := by
  have hEnd := fits_iff.mp h
  exact fits_iff.mpr (by omega)

/-- Fields that follow each other make one field. -/
theorem field_append {i m j n : Nat} (h : fits i m width = true) (h' : fits j n width = true)
    (next : i + m = j) :
    r.field i m h ++ r.field j n h' = r.field i (m + n) (fits_append h' next) := by
  subst next
  simp only [field_eq_take_drop, List.take_add, List.drop_drop]

theorem length_field {i count : Nat} (h : fits i count width = true) :
    (r.field i count h).length = count :=
  List.length_ofFn

@[simp] theorem toList_raw {i count : Nat} (h : fits i count width = true) :
    (r.raw i count h).toList = r.field i count h := by
  rw [raw, field]
  apply List.ext_getElem
  · rw [Vector.length_toList, List.length_ofFn]
  · intro k _ _
    rw [Vector.getElem_toList, Vector.getElem_ofFn, List.getElem_ofFn]
    rfl

theorem length_table16 {count : Nat} (r : Record (count * 2)) : r.table16.length = count :=
  List.length_ofFn

theorem length_table32 {count : Nat} (r : Record (count * 4)) : r.table32.length = count :=
  List.length_ofFn

section Words

variable {i : Nat}

theorem toNat_u16 (h : fits i 2 width = true) :
    (r.u16 i h).toNat = LittleEndian.decode (r.field i 2 h) := by
  have hLt := LittleEndian.decode_lt (r.field i 2 h)
  rw [length_field] at hLt
  exact UInt16.toNat_ofNat_of_lt' hLt

theorem toNat_u32 (h : fits i 4 width = true) :
    (r.u32 i h).toNat = LittleEndian.decode (r.field i 4 h) := by
  have hLt := LittleEndian.decode_lt (r.field i 4 h)
  rw [length_field] at hLt
  exact UInt32.toNat_ofNat_of_lt' hLt

theorem toNat_u64 (h : fits i 8 width = true) :
    (r.u64 i h).toNat = LittleEndian.decode (r.field i 8 h) := by
  have hLt := LittleEndian.decode_lt (r.field i 8 h)
  rw [length_field] at hLt
  exact UInt64.toNat_ofNat_of_lt' hLt

end Words

/-- The record's bytes are those of the file from a place on. -/
def StoredAt (content : ByteArray) (offset : Nat) : Prop :=
  r.bytes = content.extract offset (offset + width)

namespace StoredAt

variable {r : Record width} {content : ByteArray} {offset i : Nat}

theorem bytes_eq (h : r.StoredAt content offset) :
    r.bytes.data.toList = Layout.bytes content offset width := by
  rw [h, Layout.bytes]

theorem field {count : Nat} (h : r.StoredAt content offset) (inside : fits i count width = true) :
    r.field i count inside = Layout.bytes content (offset + i) count := by
  rw [field_eq_take_drop, h.bytes_eq, Layout.take_drop_bytes (fits_iff.mp inside)]

theorem toNat_u16 (h : r.StoredAt content offset) (inside : fits i 2 width = true) :
    (r.u16 i inside).toNat = Layout.number content (offset + i) 2 := by
  rw [Record.toNat_u16, h.field, Layout.number]

theorem toNat_u32 (h : r.StoredAt content offset) (inside : fits i 4 width = true) :
    (r.u32 i inside).toNat = Layout.number content (offset + i) 4 := by
  rw [Record.toNat_u32, h.field, Layout.number]

theorem u16_eq (h : r.StoredAt content offset) (inside : fits i 2 width = true) :
    r.u16 i inside = UInt16.ofNat (Layout.number content (offset + i) 2) := by
  rw [← h.toNat_u16 inside, UInt16.ofNat_toNat]

theorem u32_eq (h : r.StoredAt content offset) (inside : fits i 4 width = true) :
    r.u32 i inside = UInt32.ofNat (Layout.number content (offset + i) 4) := by
  rw [← h.toNat_u32 inside, UInt32.ofNat_toNat]

theorem toNat_u64 (h : r.StoredAt content offset) (inside : fits i 8 width = true) :
    (r.u64 i inside).toNat = Layout.number content (offset + i) 8 := by
  rw [Record.toNat_u64, h.field, Layout.number]

theorem raw {count : Nat} (h : r.StoredAt content offset) (inside : fits i count width = true) :
    r.raw i count inside = Layout.raw content (offset + i) count := by
  have hField := h.field inside
  have hLength : (Layout.bytes content (offset + i) count).length = count := by
    rw [← hField, length_field]
  apply Vector.toList_inj.mp
  rw [toList_raw, Layout.toList_raw hLength, hField]

theorem getElem_table16 {count k : Nat} {r : Record (count * 2)} (h : r.StoredAt content offset)
    (hk : k < r.table16.length) : r.table16[k].toNat = Layout.entry16 content offset k := by
  simp only [table16, List.getElem_ofFn]
  exact h.toNat_u16 _

theorem getElem_table32 {count k : Nat} {r : Record (count * 4)} (h : r.StoredAt content offset)
    (hk : k < r.table32.length) : r.table32[k].toNat = Layout.entry32 content offset k := by
  simp only [table32, List.getElem_ofFn]
  exact h.toNat_u32 _

theorem table16_eq {count : Nat} {r : Record (count * 2)} (h : r.StoredAt content offset) :
    r.table16 =
      (List.range count).map fun k => UInt16.ofNat (Layout.entry16 content offset k) := by
  apply List.ext_getElem
  · rw [length_table16, List.length_map, List.length_range]
  · intro k hk _
    rw [List.getElem_map, List.getElem_range, ← h.getElem_table16 hk, UInt16.ofNat_toNat]

theorem pairs32_eq {count : Nat} {r : Record (count * 8)} (h : r.StoredAt content offset) :
    r.pairs32 = (List.range count).map fun k =>
      (UInt32.ofNat (Layout.number content (offset + 8 * k) 4),
        UInt32.ofNat (Layout.number content (offset + (8 * k + 4)) 4)) := by
  apply List.ext_getElem
  · rw [pairs32, List.length_ofFn, List.length_map, List.length_range]
  · intro k _ _
    simp only [pairs32, List.getElem_ofFn, List.getElem_map, List.getElem_range, h.u32_eq]

theorem forall_table32 {count : Nat} {r : Record (count * 4)} (h : r.StoredAt content offset)
    {p : Nat → Prop} :
    (∀ a ∈ r.table32, p a.toNat) ↔ ∀ k < count, p (Layout.entry32 content offset k) := by
  rw [List.forall_mem_iff_forall_getElem]
  simp only [h.getElem_table32, r.length_table32]

end StoredAt
end Record
end PortableExecutable
