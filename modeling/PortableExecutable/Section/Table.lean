import PortableExecutable.Header.Pe
import PortableExecutable.Section

/-!
The section table, which ties addresses in memory to places in the file. The table is searched from
front to back, so of sections that overlap the first one counts.
-/

namespace PortableExecutable

/-- The sections in the order in which the file lists them. -/
structure SectionTable where
  sections : List Section := []
  deriving DecidableEq, Repr

/-- Why an address leads to no place in the file. -/
inductive Unmapped where
  | atOffsetZero
  | outsideSections
  deriving DecidableEq, Repr

namespace SectionTable

def byName? (t : SectionTable) (name : String) : Option Section :=
  t.sections.find? (·.name == name)

def containing? (t : SectionTable) (rva : Nat) : Option Section :=
  t.sections.find? (·.coversRva .virtual rva)

/-- The section that maps an address: one whose virtual range holds it, or else one whose raw data
would, for images that state too small a virtual size. -/
def mapping? (t : SectionTable) (rva : Nat) : Option Section :=
  (t.containing? rva).or (t.sections.find? (·.coversRva .raw rva))

theorem virtualAddress_le_of_mapping? {t : SectionTable} {rva : Nat} {s : Section}
    (h : t.mapping? rva = some s) : s.virtualAddress.toNat ≤ rva := by
  have bound (kind : Extent) (holds : s.coversRva kind rva = true) :
      s.virtualAddress.toNat ≤ rva := by
    simp only [Section.coversRva, Bool.and_eq_true, decide_eq_true_eq] at holds
    exact holds.1
  rcases Option.or_eq_some_iff.mp h with found | ⟨_, found⟩
  · unfold containing? at found
    exact bound .virtual (by simpa using List.find?_some found)
  · exact bound .raw (by simpa using List.find?_some found)

/-- Translates an address to a place in the file, of which the lowest 32 bits are kept. Place 0
holds the file's own header and counts as unmapped. Without sections an address is its own place. -/
def locate (t : SectionTable) (rva : Nat) : Except Unmapped UInt32 :=
  if t.sections.isEmpty then .ok (UInt32.ofNat rva)
  else
    match h : t.mapping? rva with
    | none => .error .outsideSections
    | some s =>
      let into := deduct rva s.virtualAddress.toNat (virtualAddress_le_of_mapping? h)
      let offset := UInt32.ofNat (into + s.pointerToRawData.toNat)
      if offset = 0 then .error .atOffsetZero else .ok offset

def offsetOfRva? (t : SectionTable) (rva : Nat) : Option UInt32 := (t.locate rva).toOption

/-- Translates an absolute address. Only addresses strictly above the image base count. -/
def offsetOfVa? (t : SectionTable) (va imageBase : Nat) : Option UInt32 :=
  if va > imageBase then t.offsetOfRva? (va - imageBase) else none

/-- The address at which the first section that holds a place of the file puts it. -/
def rvaOfOffset? (t : SectionTable) (offset : Nat) : Option UInt32 :=
  (t.sections.find? (·.coversOffset offset)).map fun s =>
    UInt32.ofNat (s.virtualAddress.toNat + (offset - s.pointerToRawData.toNat))

/-- The executable sections with their places in the table. -/
def executable (t : SectionTable) : List (Section × Nat) :=
  t.sections.zipIdx.filter (·.1.isExecutable)

def translate {ε : Type} (t : SectionTable) (rva : Nat) : Scan ε (Option UInt32) :=
  match t.locate rva with
  | .ok offset => pure (some offset)
  | .error .atOffsetZero => do
    Scan.emit (.rvaAtOffsetZero rva)
    pure none
  | .error .outsideSections => do
    Scan.emit (.rvaUnmapped rva)
    pure none

/-- Reads consecutive section headers at the cursor, the first of them with the given index. -/
def readMany (index : Nat) : Nat → ImageScan (List Section)
  | 0 => pure []
  | count + 1 => do
    let s := Section.ofRecord (← ImageScan.reading .sectionHeader (Read.record 40))
    Scan.emit (.sectionHeaderRead index s.name s.virtualAddress.toNat s.virtualSize.toNat
      s.pointerToRawData.toNat s.sizeOfRawData.toNat)
    return s :: (← readMany (index + 1) count)

/-- Reads the table behind the optional header. Its place follows from the declared size of that
header, whatever was read of it. -/
def read (dos : DosHeader) (pe : PeHeader) : ImageScan SectionTable := do
  ImageScan.reach .sectionTable
    (dos.peHeaderOffset.toNat + PeHeader.size + pe.sizeOfOptionalHeader.toNat)
  return ⟨← readMany 0 pe.numberOfSections.toNat⟩

end SectionTable
end PortableExecutable
