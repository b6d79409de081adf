import PortableExecutable.Headers

/-!
Finding and entering the tables that the data directories point to. A directory that is switched
off, absent, or impossible to reach counts as empty; one that is reached is read from the cursor
on, and what is wrong inside it is an error.
-/

namespace PortableExecutable

/-- What directories are read by: the headers of the image, and what the reader was told. -/
structure Context where
  headers : Headers
  options : Options

namespace Context

def maxStringLength (ctx : Context) : Nat := ctx.options.maxStringLength.toNat

/-- Place 0 is never a target, not even in an image without sections. -/
def valid (offset? : Option UInt32) : Option Nat :=
  (offset?.filter (· != 0)).map (·.toNat)

def translateRva (ctx : Context) (rva : Nat) : ImageScan (Option Nat) :=
  return valid (← ctx.headers.sections.translate rva)

def translateVa (ctx : Context) (va : Nat) : ImageScan (Option Nat) := do
  let base := ctx.headers.imageBase.toNat
  if va > base then ctx.translateRva (va - base) else pure none

def requireRva (ctx : Context) (piece : Piece) (rva : UInt32) : ImageScan Nat := do
  match ← ctx.translateRva rva.toNat with
  | some offset => pure offset
  | none => Scan.fail (.unmappedAddress piece rva.toNat)

def stringAtRva (ctx : Context) (piece : Piece) (rva : UInt32) : ImageScan String := do
  let offset ← ctx.requireRva piece rva
  ImageScan.reading piece (Read.stringAt offset ctx.maxStringLength)

/-- The entry of a slot, unless it is missing, empty, or without an address. -/
def presentDirectory (ctx : Context) (slot : Nat) : ImageScan (Option DataDirectory) := do
  if slot ≥ DataDirectory.maxCount then
    Scan.emit (.invalidSlot slot)
    return none
  else
    match ctx.headers.directory? slot with
    | none =>
      Scan.emit (.directoryUndeclared slot)
      return none
    | some d =>
      if d.isEmpty then return none
      else
        if d.size = 0 then Scan.emit (.directoryWithoutSize slot d.virtualAddress.toNat)
        if d.virtualAddress = 0 then
          Scan.emit (.directoryWithoutAddress slot d.size.toNat)
          return none
        else return some d

/-- Moves the cursor to the directory of a slot and gives its place, or leaves the cursor alone
when there is nothing to reach. -/
def enterDirectory (ctx : Context) (slot : Nat) : ImageScan (Option Nat) := do
  match ← ctx.presentDirectory slot with
  | none => return none
  | some d =>
    match ← ctx.translateRva d.virtualAddress.toNat with
    | none =>
      Scan.emit (.directoryUntranslated slot d.virtualAddress.toNat)
      return none
    | some offset =>
      match ← Scan.attempt (Read.seek offset) with
      | .ok () => return some offset
      | .error cause =>
        Scan.emit (.directoryUnreachable slot offset cause)
        return none

end Context

/-- How one kind of directory is found and read. -/
structure Directory (α : Type) where
  name : String
  enabled : Options → Bool
  enter : Context → ImageScan (Option Nat)
  read : Context → ImageScan α
  /-- What stands for a directory that is not read. -/
  absent : α

namespace Directory

variable {α : Type}

/-- Reads one directory, if it is wanted and there. -/
def load (d : Directory α) (ctx : Context) : ImageScan α := do
  if d.enabled ctx.options then
    match ← d.enter ctx with
    | none => return d.absent
    | some _ => Scan.within .parseDirectory (d.read ctx)
  else
    Scan.emit (.directoryDisabled d.name)
    return d.absent

end Directory
end PortableExecutable
