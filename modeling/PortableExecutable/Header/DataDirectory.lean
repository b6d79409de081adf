import PortableExecutable.ImageScan

/-!
Entries of the data directory array: where one of the tables of an image begins and how many bytes
it declares. The place of an entry in the array says which table it is for.
-/

namespace PortableExecutable

structure DataDirectory where
  virtualAddress : UInt32 := 0
  size : UInt32 := 0
  deriving DecidableEq, Repr, Inhabited

namespace DataDirectory

/-- Entries past this count are disregarded, however many are declared. -/
def maxCount : Nat := 16

def ofRecord (r : Record 8) : DataDirectory := ⟨r.u32 0, r.u32 4⟩

def isEmpty (d : DataDirectory) : Bool := d.virtualAddress == 0 && d.size == 0

/-- True of addresses strictly between the bounds of the directory. -/
def strictlyContains (d : DataDirectory) (rva : UInt32) : Bool :=
  d.virtualAddress.toNat < rva.toNat && rva.toNat < d.virtualAddress.toNat + d.size.toNat

/-- Reads consecutive entries at the cursor, the first of them with the given index. -/
def readMany (index : Nat) : Nat → ImageScan (List DataDirectory)
  | 0 => pure []
  | count + 1 => do
    let d := ofRecord (← ImageScan.reading .dataDirectory (Read.record 8))
    Scan.emit (.dataDirectoryRead index d.virtualAddress.toNat d.size.toNat)
    return d :: (← readMany (index + 1) count)

end DataDirectory
end PortableExecutable
