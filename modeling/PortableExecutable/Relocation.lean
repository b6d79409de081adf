import PortableExecutable.Directory

/-!
The base relocation table: blocks of 16-bit entries, each block for one page of memory. The blocks
fill the declared size exactly.
-/

namespace PortableExecutable

inductive RelocationKind where
  | absolute
  | high
  | low
  | highLow
  | highAdj
  | dir64
  | other (code : UInt8)
  deriving DecidableEq, Repr, Inhabited

def RelocationKind.ofCode (code : UInt8) : RelocationKind :=
  match code.toNat with
  | 0 => absolute
  | 1 => high
  | 2 => low
  | 3 => highLow
  | 4 => highAdj
  | 10 => dir64
  | _ => other code

structure RelocationEntry where
  kind : RelocationKind
  /-- Distance from the start of the page. -/
  offset : UInt16
  rva : UInt32
  deriving DecidableEq, Repr

structure RelocationBlock where
  pageRva : UInt32 := 0
  /-- Bytes of the block, its header included. -/
  blockSize : UInt32 := 0
  typeOffsets : List UInt16 := []
  deriving DecidableEq, Repr

namespace RelocationBlock

def headerSize : Nat := 8

def entryCount (b : RelocationBlock) : Nat := (b.blockSize.toNat - headerSize) / 2

/-- Decodes an entry: its kind in the highest four bits, and its offset in the page. Addresses go
on from zero past the largest one. -/
def entry (b : RelocationBlock) (typeOffset : UInt16) : RelocationEntry :=
  let offset := typeOffset &&& 0x0FFF
  { kind := RelocationKind.ofCode (typeOffset >>> 12).toUInt8
    offset := offset
    rva := b.pageRva + offset.toUInt32 }

def entries (b : RelocationBlock) : List RelocationEntry := b.typeOffsets.map b.entry

end RelocationBlock

namespace Relocation

/-- Reads blocks from a place on until they fill what remains of the declared size. -/
def readBlocks (offset remaining : Nat) : ImageScan (List RelocationBlock) := do
  if remaining = 0 then return []
  else
    let header ← ImageScan.reading .relocationHeader (Read.recordAt offset 8)
    let size := (header.u32 4).toNat
    if malformed : size < 8 ∨ remaining < size then
      Scan.fail (.malformedRelocationBlock offset size remaining)
    else
      let count := deduct size 8 (by omega) / 2
      let entries ← ImageScan.reading .relocationEntries
        (Read.recordAt (← Scan.sum offset 8) (count * 2))
      let block :=
        { pageRva := header.u32 0, blockSize := header.u32 4, typeOffsets := entries.table16 }
      let next ← Scan.sum offset size
      return block :: (← readBlocks next (deduct remaining size (by omega)))
termination_by remaining
decreasing_by unfold deduct; omega

def read (ctx : Context) : ImageScan (List RelocationBlock) := do
  let blocks ← readBlocks (← Scan.reader).position (ctx.headers.declaredSize 5)
  Scan.emit (.relocationsParsed blocks.length)
  return blocks

def directory : Directory (List RelocationBlock) where
  name := "relocations"
  enabled := (·.parseRelocations)
  enter := (·.enterDirectory 5)
  read := read
  absent := []

end Relocation
end PortableExecutable
