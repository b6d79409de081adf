import PortableExecutable.Header.DataDirectory
import PortableExecutable.Header.Pe

/-!
The optional header, which in spite of its name nearly every image has. It comes in a 32-bit and a
64-bit shape that share their first 24 bytes and a later block of 40. The data directory array
follows its fixed part.
-/

namespace PortableExecutable

inductive Subsystem where
  | unknown
  | native
  | windowsGui
  | windowsCui
  | os2Cui
  | posixCui
  | windowsCeGui
  | efiApplication
  | efiBootServiceDriver
  | efiRuntimeDriver
  | efiRom
  | xbox
  | windowsBootApplication
  | other (code : UInt16)
  deriving DecidableEq, Repr, Inhabited

def Subsystem.ofCode (code : UInt16) : Subsystem :=
  match code.toNat with
  | 0 => unknown
  | 1 => native
  | 2 => windowsGui
  | 3 => windowsCui
  | 5 => os2Cui
  | 7 => posixCui
  | 9 => windowsCeGui
  | 10 => efiApplication
  | 11 => efiBootServiceDriver
  | 12 => efiRuntimeDriver
  | 13 => efiRom
  | 14 => xbox
  | 16 => windowsBootApplication
  | _ => other code

/-- The first 24 bytes, the same in both shapes. -/
structure OptionalHeaderCommon where
  magic : UInt16 := 0
  majorLinkerVersion : UInt8 := 0
  minorLinkerVersion : UInt8 := 0
  sizeOfCode : UInt32 := 0
  sizeOfInitializedData : UInt32 := 0
  sizeOfUninitializedData : UInt32 := 0
  addressOfEntryPoint : UInt32 := 0
  baseOfCode : UInt32 := 0
  deriving DecidableEq, Repr

/-- The 40 bytes from the section alignment on, the same in both shapes. -/
structure WindowsFields where
  sectionAlignment : UInt32 := 0
  fileAlignment : UInt32 := 0
  majorOperatingSystemVersion : UInt16 := 0
  minorOperatingSystemVersion : UInt16 := 0
  majorImageVersion : UInt16 := 0
  minorImageVersion : UInt16 := 0
  majorSubsystemVersion : UInt16 := 0
  minorSubsystemVersion : UInt16 := 0
  win32VersionValue : UInt32 := 0
  sizeOfImage : UInt32 := 0
  sizeOfHeaders : UInt32 := 0
  checksum : UInt32 := 0
  subsystem : Subsystem := .unknown
  dllCharacteristics : UInt16 := 0
  deriving DecidableEq, Repr

structure OptionalHeader32 where
  common : OptionalHeaderCommon := {}
  baseOfData : UInt32 := 0
  imageBase : UInt32 := 0
  windows : WindowsFields := {}
  sizeOfStackReserve : UInt32 := 0
  sizeOfStackCommit : UInt32 := 0
  sizeOfHeapReserve : UInt32 := 0
  sizeOfHeapCommit : UInt32 := 0
  loaderFlags : UInt32 := 0
  numberOfRvaAndSizes : UInt32 := 0
  deriving DecidableEq, Repr

structure OptionalHeader64 where
  common : OptionalHeaderCommon := {}
  imageBase : UInt64 := 0
  windows : WindowsFields := {}
  sizeOfStackReserve : UInt64 := 0
  sizeOfStackCommit : UInt64 := 0
  sizeOfHeapReserve : UInt64 := 0
  sizeOfHeapCommit : UInt64 := 0
  loaderFlags : UInt32 := 0
  numberOfRvaAndSizes : UInt32 := 0
  deriving DecidableEq, Repr

inductive OptionalHeader where
  /-- The PE header gives this header a size of zero. -/
  | absent
  | pe32 (header : OptionalHeader32)
  | pe32Plus (header : OptionalHeader64)
  deriving DecidableEq, Repr

def OptionalHeaderCommon.ofRecord (r : Record 24) : OptionalHeaderCommon where
  magic := r.u16 0
  majorLinkerVersion := r.u8 2
  minorLinkerVersion := r.u8 3
  sizeOfCode := r.u32 4
  sizeOfInitializedData := r.u32 8
  sizeOfUninitializedData := r.u32 12
  addressOfEntryPoint := r.u32 16
  baseOfCode := r.u32 20

def WindowsFields.ofRecord (r : Record 40) : WindowsFields where
  sectionAlignment := r.u32 0
  fileAlignment := r.u32 4
  majorOperatingSystemVersion := r.u16 8
  minorOperatingSystemVersion := r.u16 10
  majorImageVersion := r.u16 12
  minorImageVersion := r.u16 14
  majorSubsystemVersion := r.u16 16
  minorSubsystemVersion := r.u16 18
  win32VersionValue := r.u32 20
  sizeOfImage := r.u32 24
  sizeOfHeaders := r.u32 28
  checksum := r.u32 32
  subsystem := Subsystem.ofCode (r.u16 36)
  dllCharacteristics := r.u16 38

/-- A 32-bit header from its four consecutive parts. -/
def OptionalHeader32.ofRecords (common : OptionalHeaderCommon) (bases : Record 8)
    (shared : Record 40) (reserves : Record 24) : OptionalHeader32 where
  common := common
  baseOfData := bases.u32 0
  imageBase := bases.u32 4
  windows := WindowsFields.ofRecord shared
  sizeOfStackReserve := reserves.u32 0
  sizeOfStackCommit := reserves.u32 4
  sizeOfHeapReserve := reserves.u32 8
  sizeOfHeapCommit := reserves.u32 12
  loaderFlags := reserves.u32 16
  numberOfRvaAndSizes := reserves.u32 20

/-- A 64-bit header from its four consecutive parts. -/
def OptionalHeader64.ofRecords (common : OptionalHeaderCommon) (imageBase : UInt64)
    (shared : Record 40) (reserves : Record 40) : OptionalHeader64 where
  common := common
  imageBase := imageBase
  windows := WindowsFields.ofRecord shared
  sizeOfStackReserve := reserves.u64 0
  sizeOfStackCommit := reserves.u64 8
  sizeOfHeapReserve := reserves.u64 16
  sizeOfHeapCommit := reserves.u64 24
  loaderFlags := reserves.u32 32
  numberOfRvaAndSizes := reserves.u32 36

namespace OptionalHeader

def common? : OptionalHeader → Option OptionalHeaderCommon
  | absent => none
  | pe32 h => some h.common
  | pe32Plus h => some h.common

def windows? : OptionalHeader → Option WindowsFields
  | absent => none
  | pe32 h => some h.windows
  | pe32Plus h => some h.windows

def magic (h : OptionalHeader) : UInt16 := h.common?.elim 0 (·.magic)

def entryPoint (h : OptionalHeader) : UInt32 := h.common?.elim 0 (·.addressOfEntryPoint)

def imageBase : OptionalHeader → UInt64
  | absent => 0
  | pe32 h => h.imageBase.toUInt64
  | pe32Plus h => h.imageBase

def subsystem (h : OptionalHeader) : Subsystem := h.windows?.elim .unknown (·.subsystem)

def dllCharacteristics (h : OptionalHeader) : UInt16 := h.windows?.elim 0 (·.dllCharacteristics)

def checksum (h : OptionalHeader) : UInt32 := h.windows?.elim 0 (·.checksum)

def numberOfRvaAndSizes : OptionalHeader → UInt32
  | absent => 0
  | pe32 h => h.numberOfRvaAndSizes
  | pe32Plus h => h.numberOfRvaAndSizes

def is64Bit : OptionalHeader → Bool
  | pe32Plus _ => true
  | _ => false

/-- Width in bytes of the pointers stored in the image. -/
def pointerWidth (h : OptionalHeader) : Nat := if h.is64Bit then 8 else 4

def magic32 : UInt16 := 0x10B

def magic64 : UInt16 := 0x20B

def read32 (common : OptionalHeaderCommon) : ImageScan OptionalHeader := do
  let bases ← ImageScan.reading .optionalHeader32 (Read.record 8)
  let shared ← ImageScan.reading .optionalHeaderShared (Read.record 40)
  let reserves ← ImageScan.reading .reserves32 (Read.record 24)
  return pe32 (OptionalHeader32.ofRecords common bases shared reserves)

/-- Reads what follows the common part of a 64-bit header, which has no base of data. -/
def read64 (common : OptionalHeaderCommon) : ImageScan OptionalHeader := do
  let imageBase ← ImageScan.reading .optionalHeader64 Read.word64
  let shared ← ImageScan.reading .optionalHeaderShared (Read.record 40)
  let reserves ← ImageScan.reading .reserves64 (Read.record 40)
  return pe32Plus (OptionalHeader64.ofRecords common imageBase shared reserves)

/-- Reads the fixed part, in the shape that its magic number selects. -/
def readFixed : ImageScan OptionalHeader := do
  let common := OptionalHeaderCommon.ofRecord
    (← ImageScan.reading .optionalHeader (Read.record 24))
  if common.magic = magic32 then read32 common
  else if common.magic = magic64 then read64 common
  else Scan.fail (.invalidMagic common.magic)

/-- Reads the data directories that the fixed part declares, at most sixteen. -/
def readDirectories (header : OptionalHeader) : ImageScan (List DataDirectory) := do
  let declared := header.numberOfRvaAndSizes.toNat
  if declared > DataDirectory.maxCount then Scan.emit (.manyDirectoriesDeclared declared)
  DataDirectory.readMany 0 (min declared DataDirectory.maxCount)

/-- Reads the header behind the PE header, and its data directories. The size that the PE header
declares tells whether there is one; it does not bound what is read. -/
def read (dos : DosHeader) (pe : PeHeader) : ImageScan (OptionalHeader × List DataDirectory) := do
  if pe.sizeOfOptionalHeader = 0 then
    Scan.emit .noOptionalHeader
    return (absent, [])
  else
    let offset := dos.peHeaderOffset.toNat + PeHeader.size
    ImageScan.reach .optionalHeader offset
    let header ← readFixed
    let directories ← readDirectories header
    let consumed ← Scan.difference (← Scan.reader).position offset
    if consumed > pe.sizeOfOptionalHeader.toNat then
      Scan.emit (.optionalHeaderOverrun consumed pe.sizeOfOptionalHeader.toNat)
    return (header, directories)

end OptionalHeader
end PortableExecutable
