import PortableExecutable.Header.Optional
import PortableExecutable.Section.Table

/-!
All headers of an image together. Each one is found with the help of those before it.
-/

namespace PortableExecutable

structure Headers where
  dos : DosHeader := {}
  pe : PeHeader := {}
  optional : OptionalHeader := .absent
  directories : List DataDirectory := []
  sections : SectionTable := {}
  deriving DecidableEq, Repr

namespace Headers

def machine (h : Headers) : Machine := h.pe.machine

def is64Bit (h : Headers) : Bool := h.optional.is64Bit

def imageBase (h : Headers) : UInt64 := h.optional.imageBase

def entryPoint (h : Headers) : UInt32 := h.optional.entryPoint

def pointerWidth (h : Headers) : Nat := h.optional.pointerWidth

def directory? (h : Headers) (slot : Nat) : Option DataDirectory := h.directories[slot]?

/-- The declared size of a directory, zero without one. -/
def declaredSize (h : Headers) (slot : Nat) : Nat := (h.directory? slot).elim 0 (·.size.toNat)

def offsetOfRva? (h : Headers) (rva : Nat) : Option UInt32 := h.sections.offsetOfRva? rva

def offsetOfVa? (h : Headers) (va : Nat) : Option UInt32 :=
  h.sections.offsetOfVa? va h.imageBase.toNat

/-- Reads the headers in the order in which they depend on each other. -/
def read : ImageScan Headers := do
  let dos ← DosHeader.read
  let pe ← PeHeader.read dos
  let (optional, directories) ← OptionalHeader.read dos pe
  let sections ← SectionTable.read dos pe
  return { dos, pe, optional, directories, sections }

end Headers
end PortableExecutable
