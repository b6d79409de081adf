import PortableExecutable.Tls

/-!
Reading the directory of thread-local storage comes in two parts: the record, whose shape depends on
the width of the image, and what its address of callbacks leads to.
-/

namespace PortableExecutable
namespace Tls

def readFixed (headers : Headers) : ImageScan TlsDirectory :=
  if headers.is64Bit then readFixed64 else readFixed32

/-- What follows the record: its callbacks. -/
def readTable (ctx : Context) (record : TlsDirectory) : ImageScan (Option TlsDirectory) := do
  let address := record.addressOfCallbacks.toNat
  match ← ctx.translateVa address with
  | none => Scan.fail (.unmappedAddress .tlsCallbackTable address)
  | some table =>
    ImageScan.reach .tlsCallbackTable table
    let callbacks ← readCallbacks ctx ctx.options.maxTlsCallbacks.toNat 0
    Scan.emit (.tlsParsed callbacks.length)
    return some { record with callbacks }

theorem read_eq {ctx : Context} : read ctx = readFixed ctx.headers >>= readTable ctx := by
  rw [read, readFixed]
  split
  · rfl
  · rfl

end Tls
end PortableExecutable
