import PortableExecutable.Image

/-!
The seven kinds of directories, and switching some of them off. A switch tells whether its own
directory is loaded. No directory looks at the switches when it is entered or read.
-/

namespace PortableExecutable

inductive DirectoryKind where
  | imports
  | exports
  | resources
  | debug
  | relocations
  | tls
  | certificates
  deriving DecidableEq, Repr

namespace DirectoryKind

/-- All kinds, in the order in which they are read. -/
def order : List DirectoryKind :=
  [imports, exports, resources, debug, relocations, tls, certificates]

def Yield : DirectoryKind → Type
  | imports => ImportTable
  | exports => Option ExportDirectory
  | resources => List ResourceEntry
  | debug => List DebugEntry
  | relocations => List RelocationBlock
  | tls => Option TlsDirectory
  | certificates => List Certificate

def directory : (kind : DirectoryKind) → Directory kind.Yield
  | imports => Import.directory
  | exports => Export.directory
  | resources => Resource.directory
  | debug => Debug.directory
  | relocations => Relocation.directory
  | tls => Tls.directory
  | certificates => Certificate.directory

end DirectoryKind

namespace Options

/-- Options that ask for fewer directories and are otherwise the same. -/
def restricted (o : Options) (kept : DirectoryKind → Bool) : Options :=
  { o with
    parseImports := o.parseImports && kept .imports
    parseExports := o.parseExports && kept .exports
    parseResources := o.parseResources && kept .resources
    parseDebugInfo := o.parseDebugInfo && kept .debug
    parseRelocations := o.parseRelocations && kept .relocations
    parseTls := o.parseTls && kept .tls
    parseCertificates := o.parseCertificates && kept .certificates }

end Options

def Context.restricted (ctx : Context) (kept : DirectoryKind → Bool) : Context :=
  { ctx with options := ctx.options.restricted kept }

variable {ctx : Context} {kept : DirectoryKind → Bool}

namespace Import

theorem readEntries_restricted {d : ImportDescriptor} {table room index : Nat} :
    readEntries (ctx.restricted kept) d table room index = readEntries ctx d table room index := by
  induction room generalizing index with
  | zero => rfl
  | succ room ih =>
      simp only [readEntries, ih]
      rfl

theorem readLookupTable_restricted {d : ImportDescriptor} {room : Nat} :
    readLookupTable (ctx.restricted kept) d room = readLookupTable ctx d room := by
  simp only [readLookupTable, readEntries_restricted]
  rfl

theorem readDescriptors_restricted {slots total : Nat} :
    readDescriptors (ctx.restricted kept) slots total = readDescriptors ctx slots total := by
  induction slots generalizing total with
  | zero => rfl
  | succ slots ih =>
      simp only [readDescriptors, ih, readLookupTable_restricted]
      rfl

theorem read_restricted : read (ctx.restricted kept) = read ctx := by
  simp only [read, readDescriptors_restricted]

end Import

namespace Export

theorem readFunctions_restricted {bounds : DataDirectory} {ordinal : UInt32}
    {addresses : List UInt32} :
    readFunctions (ctx.restricted kept) bounds ordinal addresses =
      readFunctions ctx bounds ordinal addresses := by
  induction addresses generalizing ordinal with
  | nil => rfl
  | cons address rest ih =>
      simp only [readFunctions, ih]
      rfl

theorem readNames_restricted {links : List (UInt32 × UInt16)}
    {functions : Array ExportedFunction} :
    readNames (ctx.restricted kept) links functions = readNames ctx links functions := by
  induction links generalizing functions with
  | nil => rfl
  | cons link rest ih =>
      simp only [readNames, ih]
      rfl

theorem readAddressTable_restricted {bounds : DataDirectory} {d : ExportDirectory} :
    readAddressTable (ctx.restricted kept) bounds d = readAddressTable ctx bounds d := by
  simp only [readAddressTable, readFunctions_restricted]
  rfl

theorem readNameTables_restricted {d : ExportDirectory} {functions : Array ExportedFunction} :
    readNameTables (ctx.restricted kept) d functions = readNameTables ctx d functions := by
  simp only [readNameTables, readNames_restricted]
  rfl

theorem read_restricted : read (ctx.restricted kept) = read ctx := by
  simp only [read, readAddressTable_restricted, readNameTables_restricted]
  rfl

end Export

namespace Resource

theorem flattenSlots_restricted {root : Nat}
    {descend : List ResourceId → Nat → List Nat → Nat → ImageScan Flattened}
    {path : List ResourceId} {slots : List ResourceSlot} {opened : List Nat} {room : Nat} :
    flattenSlots (ctx.restricted kept) root descend path slots opened room =
      flattenSlots ctx root descend path slots opened room := by
  induction slots generalizing opened room with
  | nil => rfl
  | cons slot rest ih =>
      simp only [flattenSlots, ih]
      rfl

theorem flatten_restricted {root levels : Nat} :
    flatten (ctx.restricted kept) root levels = flatten ctx root levels := by
  induction levels with
  | zero => rfl
  | succ levels ih =>
      funext path offset opened room
      simp only [flatten, ih, flattenSlots_restricted]

theorem read_restricted : read (ctx.restricted kept) = read ctx := by
  simp only [read, flatten_restricted]
  rfl

end Resource

namespace Tls

theorem readCallbacks_restricted {room known : Nat} :
    readCallbacks (ctx.restricted kept) room known = readCallbacks ctx room known := by
  induction room generalizing known with
  | zero => rfl
  | succ room ih =>
      simp only [readCallbacks, ih]
      rfl

theorem read_restricted : read (ctx.restricted kept) = read ctx := by
  simp only [read, readCallbacks_restricted]
  rfl

end Tls

namespace DirectoryKind

theorem enabled_restricted (kind : DirectoryKind) (o : Options) :
    kind.directory.enabled (o.restricted kept) = (kind.directory.enabled o && kept kind) := by
  cases kind <;> rfl

theorem enter_restricted (kind : DirectoryKind) :
    kind.directory.enter (ctx.restricted kept) = kind.directory.enter ctx := by
  cases kind <;> rfl

theorem read_restricted (kind : DirectoryKind) :
    kind.directory.read (ctx.restricted kept) = kind.directory.read ctx := by
  cases kind with
  | imports => exact Import.read_restricted
  | exports => exact Export.read_restricted
  | resources => exact Resource.read_restricted
  | debug => rfl
  | relocations => rfl
  | tls => exact Tls.read_restricted
  | certificates => rfl

/-- A directory that is kept is loaded as before, and another one is as good as absent. -/
theorem load_restricted (kind : DirectoryKind) :
    kind.directory.load (ctx.restricted kept) =
      if kept kind then kind.directory.load ctx
      else do
        Scan.emit (.directoryDisabled kind.directory.name)
        return kind.directory.absent := by
  rw [Directory.load, Directory.load, enter_restricted, read_restricted]
  have hEnabled : kind.directory.enabled (ctx.restricted kept).options =
      (kind.directory.enabled ctx.options && kept kind) := kind.enabled_restricted ctx.options
  rw [hEnabled]
  cases kept kind with
  | true => rw [Bool.and_true, if_pos rfl]
  | false =>
      rw [Bool.and_false]
      rfl

end DirectoryKind
end PortableExecutable
