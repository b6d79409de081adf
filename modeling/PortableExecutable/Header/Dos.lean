import PortableExecutable.ImageScan

/-!
The DOS header: the first 64 bytes of every image. Only the signature and the place of the PE
header matter to what follows; the other fields are kept as they are stored.
-/

namespace PortableExecutable

structure DosHeader where
  magic : Vector UInt8 2 := Vector.replicate 2 0
  bytesOnLastPage : UInt16 := 0
  pages : UInt16 := 0
  relocations : UInt16 := 0
  headerParagraphs : UInt16 := 0
  minExtraParagraphs : UInt16 := 0
  maxExtraParagraphs : UInt16 := 0
  initialSs : UInt16 := 0
  initialSp : UInt16 := 0
  checksum : UInt16 := 0
  initialIp : UInt16 := 0
  initialCs : UInt16 := 0
  relocationTableOffset : UInt16 := 0
  overlayNumber : UInt16 := 0
  reserved : Vector UInt16 4 := Vector.replicate 4 0
  oemId : UInt16 := 0
  oemInfo : UInt16 := 0
  reserved2 : Vector UInt16 10 := Vector.replicate 10 0
  peHeaderOffset : UInt32 := 0
  deriving DecidableEq, Repr

namespace DosHeader

def size : Nat := 64

/-- The letters `MZ`. -/
def signature : Vector UInt8 2 := #v[0x4D, 0x5A]

def ofRecord (r : Record 64) : DosHeader where
  magic := r.raw 0 2
  bytesOnLastPage := r.u16 2
  pages := r.u16 4
  relocations := r.u16 6
  headerParagraphs := r.u16 8
  minExtraParagraphs := r.u16 10
  maxExtraParagraphs := r.u16 12
  initialSs := r.u16 14
  initialSp := r.u16 16
  checksum := r.u16 18
  initialIp := r.u16 20
  initialCs := r.u16 22
  relocationTableOffset := r.u16 24
  overlayNumber := r.u16 26
  reserved := r.words 28 4
  oemId := r.u16 36
  oemInfo := r.u16 38
  reserved2 := r.words 40 10
  peHeaderOffset := r.u32 60

def read : ImageScan DosHeader := do
  let fileSize := (← Scan.reader).size
  if fileSize < size then Scan.fail (.fileTooSmall fileSize)
  else
    ImageScan.io (Read.seek 0)
    let header := ofRecord (← ImageScan.reading .dosHeader (Read.record 64))
    if header.magic = signature then pure header
    else Scan.fail (.invalidDosSignature header.magic)

end DosHeader
end PortableExecutable
