import PortableExecutable.Directory

/-!
The debug directory: an array of entries of 28 bytes, as many as the declared size holds whole.
-/

namespace PortableExecutable

inductive DebugType where
  | unknown
  | coff
  | codeView
  | fpo
  | misc
  | exception
  | fixup
  | borland
  | clsid
  | vcFeature
  | pogo
  | iltcg
  | repro
  | exDllCharacteristics
  | other (code : UInt32)
  deriving DecidableEq, Repr, Inhabited

def DebugType.ofCode (code : UInt32) : DebugType :=
  match code.toNat with
  | 0 => unknown
  | 1 => coff
  | 2 => codeView
  | 3 => fpo
  | 4 => misc
  | 5 => exception
  | 6 => fixup
  | 9 => borland
  | 11 => clsid
  | 12 => vcFeature
  | 13 => pogo
  | 14 => iltcg
  | 16 => repro
  | 20 => exDllCharacteristics
  | _ => other code

structure DebugEntry where
  characteristics : UInt32
  timeDateStamp : UInt32
  majorVersion : UInt16
  minorVersion : UInt16
  debugType : DebugType
  sizeOfData : UInt32
  addressOfRawData : UInt32
  pointerToRawData : UInt32
  deriving DecidableEq, Repr

namespace DebugEntry

def storedSize : Nat := 28

def ofRecord (r : Record 28) : DebugEntry where
  characteristics := r.u32 0
  timeDateStamp := r.u32 4
  majorVersion := r.u16 8
  minorVersion := r.u16 10
  debugType := DebugType.ofCode (r.u32 12)
  sizeOfData := r.u32 16
  addressOfRawData := r.u32 20
  pointerToRawData := r.u32 24

end DebugEntry

namespace Debug

def readEntries : Nat → ImageScan (List DebugEntry)
  | 0 => pure []
  | count + 1 => do
    let entry := DebugEntry.ofRecord (← ImageScan.reading .debugEntry (Read.record 28))
    return entry :: (← readEntries count)

def read (ctx : Context) : ImageScan (List DebugEntry) := do
  let entries ← readEntries (ctx.headers.declaredSize 6 / DebugEntry.storedSize)
  Scan.emit (.debugParsed entries.length)
  return entries

def directory : Directory (List DebugEntry) where
  name := "debug"
  enabled := (·.parseDebugInfo)
  enter := (·.enterDirectory 6)
  read := read
  absent := []

end Debug
end PortableExecutable
