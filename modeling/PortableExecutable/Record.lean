import PortableExecutable.LittleEndian

/-!
Fixed-size records. A record of width `w` holds exactly `w` bytes, and every field access names
its offset together with a proof that the field ends inside the record, so that decoding a record
never runs out of bytes. At numeral offsets the proof is a computation.
-/

namespace PortableExecutable

/-- Exactly `width` bytes, as stored in the file. -/
structure Record (width : Nat) where
  bytes : ByteArray
  size_eq : bytes.size = width

namespace Record

/-- Whether `count` bytes from offset `i` end inside a record. -/
abbrev fits (i count width : Nat) : Bool := (i + count).ble width

theorem fits_iff {i count width : Nat} : fits i count width = true ↔ i + count ≤ width :=
  ⟨Nat.le_of_ble_eq_true, Nat.ble_eq_true_of_le⟩

variable {width : Nat}

/-- The `count` bytes that start at offset `i`. -/
def field (r : Record width) (i count : Nat)
    (inside : fits i count width = true := by exact @rfl Bool true) : List UInt8 :=
  List.ofFn fun k : Fin count =>
    r.bytes.get (i + k) (by have := r.size_eq; have := k.isLt; have := fits_iff.mp inside; omega)

def u8 (r : Record width) (i : Nat)
    (inside : fits i 1 width = true := by exact @rfl Bool true) : UInt8 :=
  r.bytes.get i (by have := r.size_eq; have := fits_iff.mp inside; omega)

def u16 (r : Record width) (i : Nat)
    (inside : fits i 2 width = true := by exact @rfl Bool true) : UInt16 :=
  UInt16.ofNat (LittleEndian.decode (r.field i 2 inside))

def u32 (r : Record width) (i : Nat)
    (inside : fits i 4 width = true := by exact @rfl Bool true) : UInt32 :=
  UInt32.ofNat (LittleEndian.decode (r.field i 4 inside))

def u64 (r : Record width) (i : Nat)
    (inside : fits i 8 width = true := by exact @rfl Bool true) : UInt64 :=
  UInt64.ofNat (LittleEndian.decode (r.field i 8 inside))

def raw (r : Record width) (i count : Nat)
    (inside : fits i count width = true := by exact @rfl Bool true) : Vector UInt8 count :=
  Vector.ofFn fun k =>
    r.u8 (i + k) (fits_iff.mpr (by have := fits_iff.mp inside; have := k.isLt; omega))

def words (r : Record width) (i count : Nat)
    (inside : fits i (2 * count) width = true := by exact @rfl Bool true) :
    Vector UInt16 count :=
  Vector.ofFn fun k =>
    r.u16 (i + 2 * k) (fits_iff.mpr (by have := fits_iff.mp inside; have := k.isLt; omega))

/-- A whole record read as `count` consecutive 16-bit words. -/
def table16 {count : Nat} (r : Record (count * 2)) : List UInt16 :=
  List.ofFn fun k : Fin count => r.u16 (2 * k) (fits_iff.mpr (by have := k.isLt; omega))

def table32 {count : Nat} (r : Record (count * 4)) : List UInt32 :=
  List.ofFn fun k : Fin count => r.u32 (4 * k) (fits_iff.mpr (by have := k.isLt; omega))

def pairs32 {count : Nat} (r : Record (count * 8)) : List (UInt32 × UInt32) :=
  List.ofFn fun k : Fin count =>
    (r.u32 (8 * k) (fits_iff.mpr (by have := k.isLt; omega)),
      r.u32 (8 * k + 4) (fits_iff.mpr (by have := k.isLt; omega)))

def isZero (r : Record width) : Bool :=
  r.bytes.data.all (· == 0)

end Record
end PortableExecutable
