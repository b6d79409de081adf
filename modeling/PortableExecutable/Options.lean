/-!
What a reader of images can be told: which directories to read, how many items to take from
tables whose size the file itself declares, and how much may be read at all.
-/

namespace PortableExecutable

/-- Bounds on the file and on the total number of bytes read from it. -/
structure Limits where
  maxFileSize : UInt64 := 104857600
  /-- Room for one pass over the largest file and for reading its strings again. -/
  maxReadBytes : UInt64 := 209715200
  deriving DecidableEq, Repr

structure Options where
  parseImports : Bool := true
  parseExports : Bool := true
  parseResources : Bool := true
  parseDebugInfo : Bool := true
  parseRelocations : Bool := true
  parseTls : Bool := true
  parseCertificates : Bool := true
  /-- Bounds the exported functions and, separately, the exported names. -/
  maxExports : UInt64 := 65536
  /-- Bounds the imported functions of all libraries together. -/
  maxImports : UInt64 := 10000
  maxTlsCallbacks : UInt64 := 1024
  maxResourceDepth : UInt64 := 8
  maxResourceEntries : UInt64 := 10000
  /-- Bounds the bytes of a zero-terminated string and the units of a resource name. -/
  maxStringLength : UInt64 := 1024
  limits : Limits := ⟨104857600, 209715200⟩
  deriving DecidableEq, Repr

namespace Options

/-- Reads everything, within bounds that hold for ordinary images. -/
def standard : Options := {}

/-- Reads headers and sections and leaves all directories alone. -/
def headersOnly : Options where
  parseImports := false
  parseExports := false
  parseResources := false
  parseDebugInfo := false
  parseRelocations := false
  parseTls := false
  parseCertificates := false

end Options
end PortableExecutable
