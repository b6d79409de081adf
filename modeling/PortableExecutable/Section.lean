import PortableExecutable.ImageScan

/-!
One entry of the section table: a range of addresses in memory and the range of the file that
backs it.
-/

namespace PortableExecutable

structure Section where
  storedName : Vector UInt8 8 := Vector.replicate 8 0
  virtualSize : UInt32 := 0
  virtualAddress : UInt32 := 0
  sizeOfRawData : UInt32 := 0
  pointerToRawData : UInt32 := 0
  pointerToRelocations : UInt32 := 0
  pointerToLineNumbers : UInt32 := 0
  numberOfRelocations : UInt16 := 0
  numberOfLineNumbers : UInt16 := 0
  characteristics : UInt32 := 0
  deriving DecidableEq, Repr

/-- Which of its two sizes bounds the addresses of a section. -/
inductive Extent where
  | virtual
  | raw
  deriving DecidableEq, Repr

namespace Section

def ofRecord (r : Record 40) : Section where
  storedName := r.raw 0 8
  virtualSize := r.u32 8
  virtualAddress := r.u32 12
  sizeOfRawData := r.u32 16
  pointerToRawData := r.u32 20
  pointerToRelocations := r.u32 24
  pointerToLineNumbers := r.u32 28
  numberOfRelocations := r.u16 32
  numberOfLineNumbers := r.u16 34
  characteristics := r.u32 36

/-- The stored name up to its first zero. -/
def name (s : Section) : String :=
  Utf8.decode (s.storedName.toList.takeWhile (· != 0))

def extent (s : Section) : Extent → Nat
  | .virtual => s.virtualSize.toNat
  | .raw => s.sizeOfRawData.toNat

/-- The range is half open, and its end may lie past the 32-bit addresses. -/
def coversRva (s : Section) (kind : Extent) (rva : Nat) : Bool :=
  s.virtualAddress.toNat ≤ rva && rva < s.virtualAddress.toNat + s.extent kind

def coversOffset (s : Section) (offset : Nat) : Bool :=
  s.pointerToRawData.toNat ≤ offset &&
    offset < s.pointerToRawData.toNat + s.sizeOfRawData.toNat

def containsCode (s : Section) : Bool := s.characteristics &&& 0x00000020 != 0

def isExecutable (s : Section) : Bool := s.characteristics &&& 0x20000000 != 0

def isReadable (s : Section) : Bool := s.characteristics &&& 0x40000000 != 0

def isWritable (s : Section) : Bool := s.characteristics &&& 0x80000000 != 0

/-- Reads the bytes that back the section from a file of its own reading: `content?` is what
`path` leads to. What lies past the end of the file is left out. -/
def rawData (s : Section) (path : String) (content? : Option ByteArray) (limits : Limits) :
    Except (Stop ImageError) ByteArray :=
  match (Reader.ofFile path content? limits).1 with
  | .error e => .error (.error (.io e))
  | .ok reader =>
    let act := ImageScan.io (Read.chunkAt s.pointerToRawData.toNat s.sizeOfRawData.toNat)
    match act { reader } with
    | .ok chunk _ => .ok chunk
    | .error e _ => .error e

end Section
end PortableExecutable
