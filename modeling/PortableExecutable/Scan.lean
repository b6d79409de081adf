import PortableExecutable.Event
import PortableExecutable.Options

/-!
The state in which an image is read and the computations on it. A computation goes from a session
to a session whether it succeeds or not, so that what was read and logged before a failure stays
visible after it.
-/

namespace PortableExecutable

/-- The bytes of one file, a cursor, and what was spent of the read budget. -/
structure Reader where
  /-- The path, or what stands in for it when the bytes come from memory. -/
  label : String
  content : ByteArray
  limits : Limits
  position : Nat := 0
  bytesRead : Nat := 0

namespace Reader

def size (r : Reader) : Nat := r.content.size

theorem size_eq (r : Reader) : r.size = r.content.size := rfl

end Reader

structure Session where
  reader : Reader
  log : Array LogEntry := #[]

/-- Steps on a session that may stop with an error of kind `ε` or by a fault. -/
abbrev Scan (ε : Type) := EStateM (Stop ε) Session

namespace Scan

variable {α ε ε' : Type}

def fail (e : ε) : Scan ε α := throw (.error e)

def fault (f : Fault) : Scan ε α := throw (.fault f)

def reader : Scan ε Reader := fun s => .ok s.reader s

def emit (event : Event) : Scan ε Unit := fun s =>
  .ok () { s with log := s.log.push ⟨event, []⟩ }

/-- Renames the error of a computation; a fault stays a fault. -/
def mapError (f : ε → ε') (act : Scan ε α) : Scan ε' α := fun s =>
  match act s with
  | .ok a s' => .ok a s'
  | .error (.error e) s' => .error (.error (f e)) s'
  | .error (.fault g) s' => .error (.fault g) s'

/-- Turns an error into a value. The state reached by the failed computation is kept. -/
def attempt (act : Scan ε α) : Scan ε' (Except ε α) := fun s =>
  match act s with
  | .ok a s' => .ok (.ok a) s'
  | .error (.error e) s' => .ok (.error e) s'
  | .error (.fault g) s' => .error (.fault g) s'

/-- The log of an action, each entry moved inside a span, after an earlier log. -/
def enclose (span : Span) (earlier inner : Array LogEntry) : Array LogEntry :=
  earlier ++ inner.map fun entry => { entry with spans := span :: entry.spans }

def within (span : Span) (act : Scan ε α) : Scan ε α := fun s =>
  match act { s with log := #[] } with
  | .ok a s' => .ok a { s' with log := enclose span s.log s'.log }
  | .error e s' => .error e { s' with log := enclose span s.log s'.log }

/-- A 64-bit sum. Sums that cannot leave 64 bits, because their parts are narrower words, are taken
without it. -/
def sum (a b : Nat) : Scan ε Nat :=
  if a + b < UInt64.size then pure (a + b) else fault .overflow

/-- A difference that must not be negative. -/
def difference (a b : Nat) : Scan ε Nat :=
  if b ≤ a then pure (a - b) else fault .underflow

end Scan
end PortableExecutable
