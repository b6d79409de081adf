import PortableExecutable.Directory

/-!
The export directory: a table of function addresses, counted from an ordinal base, and a table of
names that point into it. An address inside the directory itself is the place of a text that
forwards the function to another library.
-/

namespace PortableExecutable

structure ExportedFunction where
  address : UInt32
  ordinal : UInt32
  name : Option String := none
  /-- The library and function that a forwarder stands for. -/
  forwardName : Option String := none
  deriving DecidableEq, Repr

def ExportedFunction.isForwarder (f : ExportedFunction) : Bool := f.forwardName.isSome

structure ExportDirectory where
  characteristics : UInt32 := 0
  timeDateStamp : UInt32 := 0
  majorVersion : UInt16 := 0
  minorVersion : UInt16 := 0
  nameRva : UInt32 := 0
  base : UInt32 := 0
  numberOfFunctions : UInt32 := 0
  numberOfNames : UInt32 := 0
  addressOfFunctions : UInt32 := 0
  addressOfNames : UInt32 := 0
  addressOfNameOrdinals : UInt32 := 0
  name : String := ""
  functions : Array ExportedFunction := #[]
  deriving DecidableEq, Repr

namespace ExportDirectory

def byName? (d : ExportDirectory) (name : String) : Option ExportedFunction :=
  d.functions.find? (·.name == some name)

def byOrdinal? (d : ExportDirectory) (ordinal : UInt32) : Option ExportedFunction :=
  d.functions.find? (·.ordinal == ordinal)

/-- The names of the functions that have one, in function order. -/
def names (d : ExportDirectory) : List String := d.functions.toList.filterMap (·.name)

def forwarders (d : ExportDirectory) : List ExportedFunction :=
  d.functions.toList.filter (·.isForwarder)

def count (d : ExportDirectory) : Nat := d.functions.size

def namedCount (d : ExportDirectory) : Nat := d.functions.toList.countP (·.name.isSome)

/-- A directory without its strings and its functions. -/
def ofRecord (r : Record 40) : ExportDirectory where
  characteristics := r.u32 0
  timeDateStamp := r.u32 4
  majorVersion := r.u16 8
  minorVersion := r.u16 10
  nameRva := r.u32 12
  base := r.u32 16
  numberOfFunctions := r.u32 20
  numberOfNames := r.u32 24
  addressOfFunctions := r.u32 28
  addressOfNames := r.u32 32
  addressOfNameOrdinals := r.u32 36

end ExportDirectory

namespace Export

def requireAtMost (piece : Piece) (count : UInt32) (limit : Nat) : ImageScan Unit :=
  if count.toNat > limit then Scan.fail (.limitExceeded piece count.toNat limit) else pure ()

/-- Makes functions of consecutive addresses, the first of them with the given ordinal. Ordinals
go on from zero past the largest one. -/
def readFunctions (ctx : Context) (bounds : DataDirectory) :
    UInt32 → List UInt32 → ImageScan (List ExportedFunction)
  | _, [] => pure []
  | ordinal, address :: rest => do
    let forwardName ←
      if bounds.strictlyContains address then
        some <$> ctx.stringAtRva .exportForwarder address
      else pure none
    return { address, ordinal, forwardName } ::
      (← readFunctions ctx bounds (ordinal + 1) rest)

def readAddressTable (ctx : Context) (bounds : DataDirectory) (d : ExportDirectory) :
    ImageScan (List ExportedFunction) := do
  if d.numberOfFunctions = 0 then return []
  else
    let table ← ctx.requireRva .exportAddressTable d.addressOfFunctions
    let addresses ← ImageScan.reading .exportAddressTable
      (Read.recordAt table (d.numberOfFunctions.toNat * 4))
    readFunctions ctx bounds d.base addresses.table32

/-- Gives each named function its name. A later name takes the place of an earlier one. -/
def readNames (ctx : Context) :
    List (UInt32 × UInt16) → Array ExportedFunction → ImageScan (Array ExportedFunction)
  | [], functions => pure functions
  | (nameRva, index) :: rest, functions =>
    if inside : index.toNat < functions.size then do
      let name ← ctx.stringAtRva .exportedFunctionName nameRva
      let named := { functions[index.toNat] with name := some name }
      readNames ctx rest (functions.set index.toNat named inside)
    else Scan.fail (.ordinalOutOfRange index functions.size)

/-- Reads the name table and the table of the indices that its names belong to. -/
def readNameTables (ctx : Context) (d : ExportDirectory) (functions : Array ExportedFunction) :
    ImageScan (Array ExportedFunction) := do
  if d.numberOfNames = 0 then return functions
  else
    let count := d.numberOfNames.toNat
    let nameTable ← ctx.requireRva .exportNameTable d.addressOfNames
    let ordinalTable ← ctx.requireRva .exportOrdinalTable d.addressOfNameOrdinals
    let names ← ImageScan.reading .exportNameTable (Read.recordAt nameTable (count * 4))
    let indices ← ImageScan.reading .exportOrdinalTable
      (Read.recordAt ordinalTable (count * 2))
    readNames ctx (names.table32.zip indices.table16) functions

def read (ctx : Context) : ImageScan (Option ExportDirectory) := do
  let bounds := (ctx.headers.directory? 0).getD {}
  let d := ExportDirectory.ofRecord
    (← ImageScan.reading .exportDirectory (Read.record 40))
  let limit := ctx.options.maxExports.toNat
  requireAtMost .exportedFunctions d.numberOfFunctions limit
  requireAtMost .exportedNames d.numberOfNames limit
  let name ← ctx.stringAtRva .exportName d.nameRva
  let unnamed ← readAddressTable ctx bounds d
  let functions ← readNameTables ctx d unnamed.toArray
  let d := { d with name, functions }
  Scan.emit (.exportsParsed d.name d.count d.namedCount)
  return some d

def directory : Directory (Option ExportDirectory) where
  name := "exports"
  enabled := (·.parseExports)
  enter := (·.enterDirectory 0)
  read := read
  absent := none

end Export
end PortableExecutable
