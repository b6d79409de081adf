import PortableExecutable.Directory

/-!
The directory of thread-local storage: a record of addresses, and a table of callbacks that one of
them points to. The addresses are absolute and as wide as the image's pointers; here they are
widened to 64 bits.
-/

namespace PortableExecutable

structure TlsDirectory where
  startAddressOfRawData : UInt64
  endAddressOfRawData : UInt64
  addressOfIndex : UInt64
  addressOfCallbacks : UInt64
  sizeOfZeroFill : UInt32
  characteristics : UInt32
  callbacks : List UInt64
  deriving DecidableEq, Repr

namespace Tls

def readWord32 : ImageScan UInt64 :=
  return (← ImageScan.reading .tlsDirectory Read.word32).toUInt64

/-- Reads the record of a 32-bit image, without the callbacks. -/
def readFixed32 : ImageScan TlsDirectory := do
  let startAddressOfRawData ← readWord32
  let endAddressOfRawData ← readWord32
  let addressOfIndex ← readWord32
  let addressOfCallbacks ← readWord32
  let tail ← ImageScan.reading .tlsDirectory (Read.record 8)
  return {
    startAddressOfRawData, endAddressOfRawData, addressOfIndex, addressOfCallbacks
    sizeOfZeroFill := tail.u32 0
    characteristics := tail.u32 4
    callbacks := [] }

/-- Reads the record of a 64-bit image, without the callbacks. -/
def readFixed64 : ImageScan TlsDirectory := do
  let r ← ImageScan.reading .tlsDirectory (Read.record 40)
  return {
    startAddressOfRawData := r.u64 0
    endAddressOfRawData := r.u64 8
    addressOfIndex := r.u64 16
    addressOfCallbacks := r.u64 24
    sizeOfZeroFill := r.u32 32
    characteristics := r.u32 36
    callbacks := [] }

/-- One pointer at the cursor, unless the file ends inside it. -/
def readPointer? (ctx : Context) : ImageScan (Option UInt64) := do
  let width := ctx.headers.pointerWidth
  let chunk ← ImageScan.io (Read.chunk width)
  if h : chunk.size = width then
    let r : Record width := ⟨chunk, h⟩
    have inside := Record.fits_iff.mpr (Nat.le_of_eq (Nat.zero_add width))
    return some (UInt64.ofNat (LittleEndian.decode (r.field 0 width inside)))
  else return none

/-- Reads callbacks at the cursor up to a zero, at most `room` of them after the `known` ones that
were read before. A table that is cut by the end of the file keeps what was read. -/
def readCallbacks (ctx : Context) : (room known : Nat) → ImageScan (List UInt64)
  | 0, _ => do
    Scan.emit (.tooManyCallbacks ctx.options.maxTlsCallbacks.toNat)
    return []
  | room + 1, known => do
    match ← readPointer? ctx with
    | none =>
      Scan.emit (.callbackTableCut known)
      return []
    | some callback =>
      if callback = 0 then return []
      else return callback :: (← readCallbacks ctx room (known + 1))

def read (ctx : Context) : ImageScan (Option TlsDirectory) := do
  let record ← if ctx.headers.is64Bit then readFixed64 else readFixed32
  let address := record.addressOfCallbacks.toNat
  match ← ctx.translateVa address with
  | none => Scan.fail (.unmappedAddress .tlsCallbackTable address)
  | some table =>
    ImageScan.reach .tlsCallbackTable table
    let callbacks ← readCallbacks ctx ctx.options.maxTlsCallbacks.toNat 0
    Scan.emit (.tlsParsed callbacks.length)
    return some { record with callbacks }

def directory : Directory (Option TlsDirectory) where
  name := "tls"
  enabled := (·.parseTls)
  enter := (·.enterDirectory 9)
  read := read
  absent := none

end Tls
end PortableExecutable
