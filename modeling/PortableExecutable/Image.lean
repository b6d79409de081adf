import PortableExecutable.Certificate
import PortableExecutable.Debug
import PortableExecutable.Export
import PortableExecutable.Import
import PortableExecutable.Relocation
import PortableExecutable.Resource
import PortableExecutable.Tls

/-!
Whole images: the headers, the section table and all directories, read in one pass over the file.
-/

namespace PortableExecutable

structure Directories where
  imports : ImportTable := {}
  exports : Option ExportDirectory := none
  resources : List ResourceEntry := []
  debug : List DebugEntry := []
  relocations : List RelocationBlock := []
  tls : Option TlsDirectory := none
  certificates : List Certificate := []

/-- Reads all directories, one after the other. The first error ends the reading. -/
def Directories.read (ctx : Context) : ImageScan Directories := do
  let imports ← Import.directory.load ctx
  let exports ← Export.directory.load ctx
  let resources ← Resource.directory.load ctx
  let debug ← Debug.directory.load ctx
  let relocations ← Relocation.directory.load ctx
  let tls ← Tls.directory.load ctx
  let certificates ← Certificate.directory.load ctx
  return { imports, exports, resources, debug, relocations, tls, certificates }

/-- An image, or what stands for one that could not be read. -/
structure Image where
  path : String := ""
  fileSize : Nat := 0
  /-- Why the image could not be read. All that follows is then empty. -/
  failure : Option ImageError := none
  headers : Headers := {}
  directories : Directories := {}

namespace Image

def isComplete (i : Image) : Bool := i.failure.isNone

def read (options : Options) : ImageScan Image := Scan.within .parseImage do
  let headers ← Headers.read
  let directories ← Directories.read { headers, options }
  let reader ← Scan.reader
  Scan.emit (.imageParsed headers.sections.sections.length reader.bytesRead)
  return { path := reader.label, fileSize := reader.size, headers, directories }

/-- The outcome of reading an image, and all that was logged on the way. -/
structure Report where
  result : Except (Stop ImageError) Image
  log : List LogEntry

/-- Reads an image with a reader that may not have come about, after the events of making it. -/
def report (reader? : Except ReadError Reader) (events : List Event) (options : Options) :
    Report :=
  let log := events.toArray.map fun event => ⟨event, []⟩
  match reader? with
  | .error cause => { result := .error (.error (.io cause)), log := log.toList }
  | .ok reader =>
    match read options { reader, log } with
    | .ok image s => { result := .ok image, log := s.log.toList }
    | .error stop s => { result := .error stop, log := s.log.toList }

/-- Reads an image from memory. The label stands in for a path. -/
def ofBytes (label : String) (content : ByteArray) (options : Options) : Report :=
  report (Reader.ofBytes label content options.limits) [] options

/-- Reads the image at a path, where `content?` is what the path leads to. -/
def ofFile (path : String) (content? : Option ByteArray) (options : Options) : Report :=
  let (reader?, events) := Reader.ofFile path content? options.limits
  report reader? events options

/-- Reads the image at a path and never refuses: an image that cannot be read is empty but for its
failure. -/
def openFile (path : String) (content? : Option ByteArray) (options : Options := {}) : Report :=
  let attempt := ofFile path content? options
  match attempt.result with
  | .error (.error cause) =>
    { result := .ok { path, failure := some cause }
      log := attempt.log ++ [⟨.imageRefused cause, []⟩] }
  | _ => attempt

end Image
end PortableExecutable
