import PortableExecutable.Directory

/-!
The import directory: one descriptor for each library, and for each descriptor a table of thunks,
one for each function, closed by a zero. A function is named by an ordinal or by a record that
holds a hint and a name.
-/

namespace PortableExecutable

structure ImportEntry where
  name : Option String := none
  ordinal : Option UInt16 := none
  hint : Option UInt16 := none
  /-- Where the loader puts the address of the function, 0 without an address table. -/
  slotAddress : UInt64 := 0
  deriving DecidableEq, Repr

structure ImportDescriptor where
  library : String
  lookupTable : UInt32
  timeDateStamp : UInt32
  forwarderChain : UInt32
  nameRva : UInt32
  addressTable : UInt32
  entries : List ImportEntry
  deriving DecidableEq, Repr

structure ImportTable where
  descriptors : List ImportDescriptor := []
  deriving DecidableEq, Repr

namespace ImportTable

def entries (t : ImportTable) : List ImportEntry := t.descriptors.flatMap (·.entries)

def count (t : ImportTable) : Nat := t.entries.length

def libraries (t : ImportTable) : List String := t.descriptors.map (·.library)

def containsName (t : ImportTable) (name : String) : Bool :=
  t.entries.any (·.name == some name)

/-- The entries of the first descriptor for a library. Letters `A` to `Z` match `a` to `z`. -/
def fromLibrary? (t : ImportTable) (library : String) : Option (List ImportEntry) :=
  (t.descriptors.find? (·.library.map Char.toLower == library.map Char.toLower)).map (·.entries)

end ImportTable

namespace ImportDescriptor

def storedSize : Nat := 20

/-- A descriptor without its library's name and its entries. -/
def ofRecord (r : Record 20) : ImportDescriptor where
  library := ""
  lookupTable := r.u32 0
  timeDateStamp := r.u32 4
  forwarderChain := r.u32 8
  nameRva := r.u32 12
  addressTable := r.u32 16
  entries := []

/-- The address of the thunks that name the functions. The address table takes their place where
there is no separate lookup table. -/
def thunkRva (d : ImportDescriptor) : UInt32 :=
  if d.lookupTable ≠ 0 then d.lookupTable else d.addressTable

/-- The absolute address of the slot that stands `distance` bytes into the address table. -/
def slotAddress (d : ImportDescriptor) (imageBase : UInt64) (distance : Nat) : UInt64 :=
  if d.addressTable ≠ 0 then imageBase + d.addressTable.toUInt64 + UInt64.ofNat distance else 0

end ImportDescriptor

namespace Import

def readThunk (width offset : Nat) : ImageScan Nat :=
  if width = 8 then do
    return ((← ImageScan.reading .importLookupTable (Read.recordAt offset 8)).u64 0).toNat
  else do
    return ((← ImageScan.reading .importLookupTable (Read.recordAt offset 4)).u32 0).toNat

/-- Whether a thunk of the given width names its function by an ordinal: its top bit. -/
def byOrdinal (width thunk : Nat) : Bool :=
  thunk.testBit (8 * width - 1)

/-- Reads a hint and the name behind it. What cannot be read is left open. -/
def readNameRecord (ctx : Context) (rva : Nat) : ImageScan (Option UInt16 × Option String) := do
  match ← ctx.translateRva rva with
  | none =>
    Scan.emit (.importNameUnmapped rva)
    return (none, none)
  | some offset =>
    match ← Scan.attempt (Read.recordAt offset 2) with
    | .error _ => return (none, none)
    | .ok hint =>
      let place ← Scan.sum offset 2
      let name ← Scan.attempt (Read.stringAt place ctx.maxStringLength)
      return (some (hint.u16 0), name.toOption)

def readEntry (ctx : Context) (thunk : Nat) (slotAddress : UInt64) : ImageScan ImportEntry := do
  if byOrdinal ctx.headers.pointerWidth thunk then
    return { ordinal := some (UInt16.ofNat thunk), slotAddress }
  else
    let (hint, name) ← readNameRecord ctx (thunk % 0x80000000)
    return { name, hint, slotAddress }

/-- Reads the thunks from the one with the given index on, at most `room` of them. -/
def readEntries (ctx : Context) (d : ImportDescriptor) (table : Nat) :
    (room index : Nat) → ImageScan (List ImportEntry)
  | 0, _ => pure []
  | room + 1, index => do
    let distance := index * ctx.headers.pointerWidth
    let thunk ← readThunk ctx.headers.pointerWidth (← Scan.sum table distance)
    if thunk = 0 then return []
    else
      let entry ← readEntry ctx thunk (d.slotAddress ctx.headers.imageBase distance)
      return entry :: (← readEntries ctx d table room (index + 1))

def readLookupTable (ctx : Context) (d : ImportDescriptor) (room : Nat) :
    ImageScan (List ImportEntry) := do
  if d.thunkRva = 0 then return []
  else
    let table ← ctx.requireRva .importLookupTable d.thunkRva
    readEntries ctx d table room 0

/-- Reads descriptors at the cursor until one is all zero or the bound on imports is reached, of
which `total` are used up. Descriptors without a name are passed over. Every descriptor takes its
bytes from the file, so `slots`, the number that can still fit, does not run out. -/
def readDescriptors (ctx : Context) : (slots total : Nat) → ImageScan (List ImportDescriptor)
  | 0, _ => Scan.fault .noProgress
  | slots + 1, total => do
    let r ← ImageScan.reading .importDescriptor (Read.record 20)
    if r.isZero then return []
    else
      let d := ImportDescriptor.ofRecord r
      if d.nameRva = 0 then
        Scan.emit .importWithoutName
        readDescriptors ctx slots total
      else
        let limit := ctx.options.maxImports.toNat
        let library ← ctx.stringAtRva .importDllName d.nameRva
        let entries ← readLookupTable ctx d (limit - total)
        let d := { d with library, entries }
        let total ← Scan.sum total entries.length
        if total ≥ limit then
          Scan.emit (.tooManyImports limit)
          return [d]
        else
          return d :: (← readDescriptors ctx slots total)

/-- One more than the descriptors that fit between the cursor and the end of the file. -/
def slotsLeft (r : Reader) : Nat := (r.size - r.position) / ImportDescriptor.storedSize + 1

def read (ctx : Context) : ImageScan ImportTable := do
  let table : ImportTable := ⟨← readDescriptors ctx (slotsLeft (← Scan.reader)) 0⟩
  Scan.emit (.importsParsed table.descriptors.length table.count)
  return table

def directory : Directory ImportTable where
  name := "imports"
  enabled := (·.parseImports)
  enter := (·.enterDirectory 1)
  read := read
  absent := {}

end Import
end PortableExecutable
