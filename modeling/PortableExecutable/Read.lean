import PortableExecutable.Bounds
import PortableExecutable.Record
import PortableExecutable.Scan
import PortableExecutable.Text.Utf8

/-!
Bounded reads: chunks, which may be shorter than asked for, and records, which may not. Positional
reads leave the cursor alone, cursor reads advance it over what they deliver, short reads included.
The budget is asked for the length a read wants before anything happens and is charged for what the
read delivers, so a refused read changes nothing.
-/

namespace PortableExecutable

namespace Limits

/-- Whether the budget still covers a read. The sum stays at the largest 64-bit number. -/
def allows (limits : Limits) (used requested : Nat) : Bool :=
  min (used + requested) (UInt64.size - 1) ≤ limits.maxReadBytes.toNat

end Limits

namespace Reader

def ofBytes (label : String) (content : ByteArray) (limits : Limits) : Except ReadError Reader :=
  if content.size > limits.maxFileSize.toNat then
    .error (.fileTooLarge limits.maxFileSize.toNat content.size)
  else .ok { label, content, limits }

/-- A reader on the file at `path`, where `content?` is what the path leads to, together with the
events of the attempt. -/
def ofFile (path : String) (content? : Option ByteArray) (limits : Limits) :
    Except ReadError Reader × List Event :=
  match content? with
  | none => (.error .unavailable, [])
  | some content =>
    let opening := .opening path content.size limits.maxFileSize.toNat
    match ofBytes path content limits with
    | .ok reader => (.ok reader, [opening])
    | .error e =>
      (.error e, [opening, .fileTooLarge path content.size limits.maxFileSize.toNat])

end Reader

abbrev Read := Scan ReadError

namespace Read

/-- Moves the cursor. The end of the file can be reached, nothing past it can. -/
def seek (offset : Nat) : Read Unit := fun s =>
  if offset > s.reader.size then .error (.error (.outOfBounds offset s.reader.size)) s
  else .ok () { s with reader := { s.reader with position := offset } }

/-- Moves the cursor on. The target stays at the largest 64-bit number. -/
def skip (count : Nat) : Read Unit := do
  seek (min ((← Scan.reader).position + count) (UInt64.size - 1))

def requireBudget (requested : Nat) : Read Unit := do
  let r ← Scan.reader
  if r.limits.allows r.bytesRead requested then pure ()
  else
    Scan.emit (.readLimitExceeded r.label r.bytesRead requested r.limits.maxReadBytes.toNat)
    Scan.fail (.readLimitExceeded r.limits.maxReadBytes.toNat r.bytesRead)

def charge (count : Nat) : Read Unit := do
  let total ← Scan.sum (← Scan.reader).bytesRead count
  modify fun s => { s with reader := { s.reader with bytesRead := total } }

def advance (count : Nat) : Read Unit := do
  let target ← Scan.sum (← Scan.reader).position count
  modify fun s => { s with reader := { s.reader with position := target } }

/-- Up to `length` bytes at `offset`: fewer when the file ends before, none past its end. -/
def chunkAt (offset length : Nat) : Read ByteArray := do
  requireBudget length
  let r ← Scan.reader
  if inside : offset < r.size then
    let stop := offset + min length (r.size - offset)
    let bytes := slice r.content offset stop (by omega) (by have := r.size_eq; omega)
    charge bytes.size
    Scan.emit (.performedRead r.label offset bytes.size (← Scan.reader).bytesRead)
    pure bytes
  else pure ByteArray.empty

/-- A chunk as a record, or the error of a chunk that is too short for one. -/
def complete (offset length : Nat) (bytes : ByteArray) : Read (Record length) :=
  if h : bytes.size = length then pure ⟨bytes, h⟩
  else Scan.fail (.shortRead offset length bytes.size)

/-- Exactly `length` bytes at `offset`. -/
def recordAt (offset length : Nat) : Read (Record length) := do
  complete offset length (← chunkAt offset length)

/-- Up to `length` bytes at the cursor, which moves over them. -/
def chunk (length : Nat) : Read ByteArray := do
  let bytes ← chunkAt (← Scan.reader).position length
  advance bytes.size
  pure bytes

/-- Exactly `length` bytes at the cursor, which moves over what there is. -/
def record (length : Nat) : Read (Record length) := do
  let offset := (← Scan.reader).position
  complete offset length (← chunk length)

def word16 : Read UInt16 := return (← record 2).u16 0

def word32 : Read UInt32 := return (← record 4).u32 0

def word64 : Read UInt64 := return (← record 8).u64 0

/-- A zero-terminated string at `offset`. At most `maxLength` bytes are looked at; a string cut by
that bound or by the end of the file is taken as it is. The terminator is paid for too, when it
was seen. -/
def stringAt (offset maxLength : Nat) : Read String := do
  let r ← Scan.reader
  if inside : offset < r.size then
    let stop := min (offset + maxLength) r.size
    let window := slice r.content offset stop (by omega) (by have := r.size_eq; omega)
    let text := window.data.toList.takeWhile (· != 0)
    let cost := min (text.length + 1) window.size
    requireBudget cost
    charge cost
    pure (Utf8.decode text)
  else Scan.fail (.outOfBounds offset r.size)

end Read
end PortableExecutable
