import PortableExecutable.Header.Dos

/-!
The PE header: the signature and the file header behind it, 24 bytes at the place that the DOS
header gives.
-/

namespace PortableExecutable

inductive Machine where
  | unknown
  | i386
  | x86_64
  | arm
  | arm64
  | armNT
  | ia64
  | ebc
  | other (code : UInt16)
  deriving DecidableEq, Repr, Inhabited

def Machine.ofCode (code : UInt16) : Machine :=
  match code.toNat with
  | 0x014c => i386
  | 0x8664 => x86_64
  | 0x01c0 => arm
  | 0xaa64 => arm64
  | 0x01c4 => armNT
  | 0x0200 => ia64
  | 0x0ebc => ebc
  | 0 => unknown
  | _ => other code

structure PeHeader where
  signature : Vector UInt8 4 := Vector.replicate 4 0
  machine : Machine := .unknown
  numberOfSections : UInt16 := 0
  timeDateStamp : UInt32 := 0
  pointerToSymbolTable : UInt32 := 0
  numberOfSymbols : UInt32 := 0
  sizeOfOptionalHeader : UInt16 := 0
  characteristics : UInt16 := 0
  deriving DecidableEq, Repr

namespace PeHeader

def size : Nat := 24

/-- The letters `PE` and two zeros. -/
def expectedSignature : Vector UInt8 4 := #v[0x50, 0x45, 0, 0]

def ofRecord (r : Record 24) : PeHeader where
  signature := r.raw 0 4
  machine := Machine.ofCode (r.u16 4)
  numberOfSections := r.u16 6
  timeDateStamp := r.u32 8
  pointerToSymbolTable := r.u32 12
  numberOfSymbols := r.u32 16
  sizeOfOptionalHeader := r.u16 20
  characteristics := r.u16 22

def read (dos : DosHeader) : ImageScan PeHeader := do
  ImageScan.reach .peHeader dos.peHeaderOffset.toNat
  let header := ofRecord (← ImageScan.reading .peHeader (Read.record 24))
  if header.signature = expectedSignature then pure header
  else Scan.fail (.invalidPeSignature header.signature)

end PeHeader
end PortableExecutable
