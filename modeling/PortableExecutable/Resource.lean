import PortableExecutable.Directory
import PortableExecutable.Text.Utf16

/-!
The resource directory: a tree whose inner nodes are tables of slots and whose leaves describe the
data. It is flattened depth first. Files can be made whose subdirectories point back at their own
ancestors, so no directory is opened twice, and depth and number of leaves are bounded as well.
-/

namespace PortableExecutable

inductive ResourceId where
  | id (n : UInt32)
  | name (s : String)
  deriving DecidableEq, Repr

/-- The name of a predefined kind of resource, for identifiers at the first level. -/
def ResourceId.typeName? : ResourceId → Option String
  | .name _ => none
  | .id n =>
    match n.toNat with
    | 1 => some "RT_CURSOR"
    | 2 => some "RT_BITMAP"
    | 3 => some "RT_ICON"
    | 4 => some "RT_MENU"
    | 5 => some "RT_DIALOG"
    | 6 => some "RT_STRING"
    | 7 => some "RT_FONTDIR"
    | 8 => some "RT_FONT"
    | 9 => some "RT_ACCELERATOR"
    | 10 => some "RT_RCDATA"
    | 11 => some "RT_MESSAGETABLE"
    | 12 => some "RT_GROUP_CURSOR"
    | 14 => some "RT_GROUP_ICON"
    | 16 => some "RT_VERSION"
    | 17 => some "RT_DLGINCLUDE"
    | 19 => some "RT_PLUGPLAY"
    | 20 => some "RT_VXD"
    | 21 => some "RT_ANICURSOR"
    | 22 => some "RT_ANIICON"
    | 23 => some "RT_HTML"
    | 24 => some "RT_MANIFEST"
    | _ => none

structure ResourceEntry where
  /-- Identifiers from the root down: usually type, name and language. -/
  path : List ResourceId
  dataRva : UInt32
  size : UInt32
  codePage : UInt32
  deriving DecidableEq, Repr

namespace ResourceEntry

def type? (e : ResourceEntry) : Option ResourceId := e.path[0]?

def name? (e : ResourceEntry) : Option ResourceId := e.path[1]?

def language? (e : ResourceEntry) : Option ResourceId := e.path[2]?

def ofRecord (path : List ResourceId) (r : Record 16) : ResourceEntry where
  path := path
  dataRva := r.u32 0
  size := r.u32 4
  codePage := r.u32 8

end ResourceEntry

/-- One slot of a directory, as stored: who it is for and where it leads. -/
structure ResourceSlot where
  name : UInt32
  target : UInt32
  deriving DecidableEq, Repr

namespace ResourceSlot

/-- The top bit of a word tells that the other 31 are an offset into the tree. -/
def isOffset (word : UInt32) : Bool := 0x80000000 ≤ word.toNat

def offset (word : UInt32) : Nat := word.toNat % 0x80000000

end ResourceSlot

/-- What one part of the flattening yields. -/
structure Flattened where
  /-- The directories opened so far, in the whole tree. -/
  opened : List Nat
  leaves : List ResourceEntry
  /-- False once the bound on leaves has ended it. -/
  goesOn : Bool
  deriving DecidableEq, Repr

namespace Resource

/-- Reads a name in the tree: a length and as many 16-bit units. What cannot be read is named by
its offset. -/
def readName (ctx : Context) (root offset : Nat) : ImageScan ResourceId := do
  let place ← Scan.sum root offset
  match ← Scan.attempt (Read.recordAt place 2) with
  | .error _ => return .id (UInt32.ofNat offset)
  | .ok header =>
    let length := min (header.u16 0).toNat ctx.maxStringLength
    match ← Scan.attempt (Read.recordAt (← Scan.sum place 2) (length * 2)) with
    | .ok units => return .name (Utf16.decode units.table16)
    | .error _ =>
      Scan.emit (.resourceNameCut place)
      return .id (UInt32.ofNat offset)

def readId (ctx : Context) (root : Nat) (slot : ResourceSlot) : ImageScan ResourceId :=
  if ResourceSlot.isOffset slot.name then readName ctx root (ResourceSlot.offset slot.name)
  else pure (.id slot.name)

/-- Reads the slots of the directory at an offset: those with names, then those with numbers. -/
def readSlots (root offset : Nat) : ImageScan (List ResourceSlot) := do
  let place ← Scan.sum root offset
  let header ← ImageScan.reading .resourceDirectory (Read.recordAt place 16)
  let count := (header.u16 12).toNat + (header.u16 14).toNat
  let slots ← ImageScan.reading .resourceSlots
    (Read.recordAt (← Scan.sum place 16) (count * 8))
  return slots.pairs32.map fun (name, target) => ⟨name, target⟩

/-- Reads the leaf at an offset while there is room for one. -/
def readLeaf (ctx : Context) (root : Nat) (path : List ResourceId) (offset : Nat)
    (opened : List Nat) (room : Nat) : ImageScan Flattened := do
  if room = 0 then
    Scan.emit (.tooManyResources ctx.options.maxResourceEntries.toNat)
    return ⟨opened, [], false⟩
  else
    let r ← ImageScan.reading .resourceData (Read.recordAt (← Scan.sum root offset) 16)
    return ⟨opened, [ResourceEntry.ofRecord path r], true⟩

/-- Goes through the slots of one directory. A subdirectory is opened by `descend`, given its path,
its offset, the directories opened before it and the room that is left. -/
def flattenSlots (ctx : Context) (root : Nat)
    (descend : List ResourceId → Nat → List Nat → Nat → ImageScan Flattened)
    (path : List ResourceId) : List ResourceSlot → List Nat → Nat → ImageScan Flattened
  | [], opened, _ => pure ⟨opened, [], true⟩
  | slot :: rest, opened, room => do
    let here := path ++ [← readId ctx root slot]
    let offset := ResourceSlot.offset slot.target
    let first ←
      if ResourceSlot.isOffset slot.target then descend here offset opened room
      else readLeaf ctx root here offset opened room
    if first.goesOn then
      let others ← flattenSlots ctx root descend path rest first.opened
        (room - first.leaves.length)
      return { others with leaves := first.leaves ++ others.leaves }
    else return first

/-- Opens the directory at an offset, with `levels` levels of directories still allowed. -/
def flatten (ctx : Context) (root : Nat) :
    Nat → List ResourceId → Nat → List Nat → Nat → ImageScan Flattened
  | 0, _, _, opened, _ => do
    Scan.emit (.resourceTooDeep ctx.options.maxResourceDepth.toNat)
    return ⟨opened, [], true⟩
  | levels + 1, path, offset, opened, room => do
    if opened.contains offset then
      Scan.emit (.resourceRepeated offset)
      return ⟨opened, [], true⟩
    else
      let slots ← readSlots root offset
      flattenSlots ctx root (flatten ctx root levels) path slots (offset :: opened) room

def read (ctx : Context) : ImageScan (List ResourceEntry) := do
  let root := (← Scan.reader).position
  let found ← flatten ctx root ctx.options.maxResourceDepth.toNat [] 0 []
    ctx.options.maxResourceEntries.toNat
  Scan.emit (.resourcesParsed found.leaves.length)
  return found.leaves

def directory : Directory (List ResourceEntry) where
  name := "resources"
  enabled := (·.parseResources)
  enter := (·.enterDirectory 2)
  read := read
  absent := []

end Resource
end PortableExecutable
