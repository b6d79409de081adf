import PortableExecutable.Export
import PortableExecutable.Proofs.Judgement

/-!
What an export directory is in a file: eleven words, a table of addresses, and a table of names
beside a table of the functions they name. Places, counts and entries are functions of the bytes
alone. An address inside the bounds of the directory forwards the function, and of several names
for a function the last one counts.
-/

namespace PortableExecutable

/-- The address lies strictly between the bounds of the directory. -/
def DataDirectory.Surrounds (d : DataDirectory) (rva : Nat) : Prop :=
  d.virtualAddress.toNat < rva ∧ rva < d.virtualAddress.toNat + d.size.toNat

instance (d : DataDirectory) (rva : Nat) : Decidable (d.Surrounds rva) :=
  inferInstanceAs (Decidable (_ ∧ _))

theorem DataDirectory.strictlyContains_iff {d : DataDirectory} {rva : UInt32} :
    d.strictlyContains rva = true ↔ d.Surrounds rva.toNat := by
  rw [strictlyContains, Bool.and_eq_true, decide_eq_true_eq, decide_eq_true_eq, Surrounds]

namespace Export

open Layout

/-- The words of a directory that lead to its name and its tables. -/
structure Words where
  nameRva : Nat
  base : Nat
  functionCount : Nat
  nameCount : Nat
  addressTable : Nat
  nameTable : Nat
  indexTable : Nat

def wordsAt (content : ByteArray) (offset : Nat) : Words where
  nameRva := number content (offset + 12) 4
  base := number content (offset + 16) 4
  functionCount := number content (offset + 20) 4
  nameCount := number content (offset + 24) 4
  addressTable := number content (offset + 28) 4
  nameTable := number content (offset + 32) 4
  indexTable := number content (offset + 36) 4

/-- The words of a directory that has been read. -/
def Words.ofDirectory (d : ExportDirectory) : Words where
  nameRva := d.nameRva.toNat
  base := d.base.toNat
  functionCount := d.numberOfFunctions.toNat
  nameCount := d.numberOfNames.toNat
  addressTable := d.addressOfFunctions.toNat
  nameTable := d.addressOfNames.toNat
  indexTable := d.addressOfNameOrdinals.toNat

theorem ofDirectory_ofRecord {content : ByteArray} {offset : Nat} {r : Record 40}
    (h : r.StoredAt content offset) :
    Words.ofDirectory (ExportDirectory.ofRecord r) = wordsAt content offset := by
  simp only [Words.ofDirectory, ExportDirectory.ofRecord, h.toNat_u32, wordsAt]

section Tables

variable (ctx : Context) (content : ByteArray) (bounds : DataDirectory) (w : Words)

/-- The table of addresses is in the file, and so are the texts of forwarders. -/
structure AddressTable (table : Nat) : Prop where
  placed : 0 < w.functionCount → ctx.placeOf? w.addressTable = some table
  inside : 0 < w.functionCount → table + 4 * w.functionCount ≤ content.size
  forwarders : ∀ i < w.functionCount, bounds.Surrounds (entry32 content table i) →
    ctx.Backs content (entry32 content table i)

/-- The tables of names and of the functions they name are in the file, and so are the names. -/
structure NameTables (names indices : Nat) : Prop where
  namesPlaced : 0 < w.nameCount → ctx.placeOf? w.nameTable = some names
  namesInside : 0 < w.nameCount → names + 4 * w.nameCount ≤ content.size
  indicesPlaced : 0 < w.nameCount → ctx.placeOf? w.indexTable = some indices
  indicesInside : 0 < w.nameCount → indices + 2 * w.nameCount ≤ content.size
  index_lt : ∀ j < w.nameCount, entry16 content indices j < w.functionCount
  names : ∀ j < w.nameCount, ctx.Backs content (entry32 content names j)

/-- The file has everything that the words of a directory lead to, and no count is too large. -/
structure Complete (addresses names indices : Nat) : Prop where
  functionCount_le : w.functionCount ≤ ctx.options.maxExports.toNat
  nameCount_le : w.nameCount ≤ ctx.options.maxExports.toNat
  name : ctx.Backs content w.nameRva
  addressTable : AddressTable ctx content bounds w addresses
  nameTables : NameTables ctx content w names indices

end Tables

section Places

variable {ctx : Context} {content : ByteArray} {bounds : DataDirectory} {w : Words}
  {table table' names names' indices indices' : Nat}

theorem addressTable_of_empty (h : w.functionCount = 0) :
    AddressTable ctx content bounds w table := by
  constructor <;> omega

theorem nameTables_of_empty (h : w.nameCount = 0) : NameTables ctx content w names indices := by
  constructor <;> omega

/-- A table that has entries is where its address leads. -/
theorem AddressTable.table_eq (h : AddressTable ctx content bounds w table')
    (filled : 0 < w.functionCount) (hPlace : ctx.placeOf? w.addressTable = some table) :
    table' = table :=
  Option.some.inj ((h.placed filled).symm.trans hPlace)

theorem exists_addressTable_iff (filled : 0 < w.functionCount)
    (hPlace : ctx.placeOf? w.addressTable = some table) :
    (∃ table', AddressTable ctx content bounds w table') ↔
      AddressTable ctx content bounds w table := by
  refine ⟨fun h => ?_, fun h => ⟨table, h⟩⟩
  obtain ⟨table', h⟩ := h
  rwa [← h.table_eq filled hPlace]

theorem NameTables.tables_eq (h : NameTables ctx content w names' indices')
    (filled : 0 < w.nameCount) (hNames : ctx.placeOf? w.nameTable = some names)
    (hIndices : ctx.placeOf? w.indexTable = some indices) :
    names' = names ∧ indices' = indices :=
  ⟨Option.some.inj ((h.namesPlaced filled).symm.trans hNames),
    Option.some.inj ((h.indicesPlaced filled).symm.trans hIndices)⟩

theorem exists_nameTables_iff (filled : 0 < w.nameCount)
    (hNames : ctx.placeOf? w.nameTable = some names)
    (hIndices : ctx.placeOf? w.indexTable = some indices) :
    (∃ names' indices', NameTables ctx content w names' indices') ↔
      NameTables ctx content w names indices := by
  refine ⟨fun h => ?_, fun h => ⟨names, indices, h⟩⟩
  obtain ⟨names', indices', h⟩ := h
  obtain ⟨rfl, rfl⟩ := h.tables_eq filled hNames hIndices
  exact h

end Places

/-- What the table of addresses says of a function. -/
structure Locates (ctx : Context) (content : ByteArray) (bounds : DataDirectory)
    (base addresses i : Nat) (f : ExportedFunction) : Prop where
  address_eq : f.address.toNat = entry32 content addresses i
  ordinal_eq : f.ordinal.toNat = (base + i) % 2 ^ 32
  forwardName_eq : f.forwardName =
    if bounds.Surrounds (entry32 content addresses i) then
      some (ctx.textAt content (entry32 content addresses i))
    else none

/-- What the tables of names say of a function. -/
structure Names (ctx : Context) (content : ByteArray) (count names indices i : Nat)
    (name? : Option String) : Prop where
  last : ∀ j < count, entry16 content indices j = i →
    (∀ k < count, j < k → entry16 content indices k ≠ i) →
      name? = some (ctx.textAt content (entry32 content names j))
  none : (∀ j < count, entry16 content indices j ≠ i) → name? = none

/-- The directory says what its tables have in the file. -/
structure Tells (ctx : Context) (content : ByteArray) (bounds : DataDirectory) (w : Words)
    (addresses names indices : Nat) (d : ExportDirectory) : Prop where
  name_eq : d.name = ctx.textAt content w.nameRva
  size_eq : d.functions.size = w.functionCount
  located : ∀ i (h : i < d.functions.size),
    Locates ctx content bounds w.base addresses i d.functions[i]
  named : ∀ i (h : i < d.functions.size),
    Names ctx content w.nameCount names indices i d.functions[i].name

/-- The bounds of the export directory, none if it is not declared. -/
def declaredBounds (ctx : Context) : DataDirectory := (ctx.headers.directory? 0).getD {}

/-- The directory at a place of the file can be read. -/
structure Readable (ctx : Context) (content : ByteArray) (offset : Nat) : Prop where
  record : offset + 40 ≤ content.size
  complete : ∃ addresses names indices,
    Complete ctx content (declaredBounds ctx) (wordsAt content offset) addresses names indices

theorem readable_iff {ctx : Context} {content : ByteArray} {offset : Nat}
    (record : offset + 40 ≤ content.size) :
    Readable ctx content offset ↔ ∃ addresses names indices,
      Complete ctx content (declaredBounds ctx) (wordsAt content offset) addresses names indices :=
  ⟨Readable.complete, fun complete => ⟨record, complete⟩⟩

/-- The directory is the one at a place of the file, wherever its tables are. -/
structure Describes (ctx : Context) (content : ByteArray) (offset : Nat) (d : ExportDirectory) :
    Prop where
  record : ∃ r : Record 40, r.StoredAt content offset ∧
    d = { ExportDirectory.ofRecord r with name := d.name, functions := d.functions }
  tells : ∀ addresses names indices,
    Complete ctx content (declaredBounds ctx) (wordsAt content offset) addresses names indices →
      Tells ctx content (declaredBounds ctx) (wordsAt content offset) addresses names indices d

end Export
end PortableExecutable
