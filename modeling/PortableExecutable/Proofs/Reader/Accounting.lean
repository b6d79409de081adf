import PortableExecutable.Proofs.Reader.Sound

/-!
Accounting over any sequence of requests to a reader. A request may fail and the next one goes on
from where it left the reader. However the requests are mixed, the cursor stays in the file, the
budget is never overspent, and what is counted as read is exactly what was delivered or looked at.
-/

namespace PortableExecutable

inductive Request where
  | seek (offset : Nat)
  | skip (count : Nat)
  | chunkAt (offset length : Nat)
  | recordAt (offset length : Nat)
  | chunk (length : Nat)
  | record (length : Nat)
  | word16
  | word32
  | word64
  | stringAt (offset maxLength : Nat)
  deriving DecidableEq, Repr

inductive Answer where
  | moved
  | bytes (b : ByteArray)
  | word (n : Nat)
  | text (t : String)

namespace Request

def perform : Request → Read Answer
  | seek offset => do
    Read.seek offset
    return .moved
  | skip count => do
    Read.skip count
    return .moved
  | chunkAt offset length => return .bytes (← Read.chunkAt offset length)
  | recordAt offset length => return .bytes (← Read.recordAt offset length).bytes
  | chunk length => return .bytes (← Read.chunk length)
  | record length => return .bytes (← Read.record length).bytes
  | word16 => return .word (← Read.word16).toNat
  | word32 => return .word (← Read.word32).toNat
  | word64 => return .word (← Read.word64).toNat
  | stringAt offset maxLength => return .text (← Read.stringAt offset maxLength)

def isPositional : Request → Bool
  | chunkAt .. | recordAt .. | stringAt .. => true
  | _ => false

/-- The bytes that an answered request delivered, or looked at to find a string. -/
def delivered (r : Reader) : Request → Answer → Nat
  | stringAt offset maxLength, _ => stringCost (r.window offset maxLength)
  | word16, _ => 2
  | word32, _ => 4
  | word64, _ => 8
  | _, .bytes b => b.size
  | _, _ => 0

def target (r : Reader) (request : Request) (answer : Answer) : Nat :=
  match request with
  | seek offset => offset
  | skip count => min (r.position + count) (2 ^ 64 - 1)
  | _ => if request.isPositional then r.position else r.position + request.delivered r answer

def after (request : Request) (s : Session) : Session :=
  match request.perform s with
  | .ok _ s' => s'
  | .error _ s' => s'

/-- The bytes that a request delivered or looked at. A short read delivers what it found. -/
def consumed (request : Request) (s : Session) : Nat :=
  match request.perform s with
  | .ok answer _ => request.delivered s.reader answer
  | .error (.error (.shortRead _ _ found)) _ => found
  | .error _ _ => 0

def run : List Request → Session → Session
  | [], s => s
  | request :: rest, s => run rest (request.after s)

def totalConsumed : List Request → Session → Nat
  | [], _ => 0
  | request :: rest, s => request.consumed s + totalConsumed rest (request.after s)

/-- How a request that stops leaves the reader: as it was, or moved over a short read that is
paid for. No other error and no fault can stop a request. -/
def LeavesOnStop (request : Request) (r : Reader) : Stop ReadError → Reader → Prop
  | .error (.outOfBounds ..), r' => r' = r
  | .error (.readLimitExceeded ..), r' => r' = r
  | .error (.shortRead offset length found), r' =>
    found = (r.bytesAt offset length).size ∧
      r' = r.moved (if request.isPositional then r.position else r.position + found)
        (r.bytesRead + found)
  | _, _ => False

def Lawful (request : Request) (s : Session) : Prop :=
  request.perform.Leads s
    (fun answer s' => s'.reader =
      s.reader.moved (request.target s.reader answer)
        (s.reader.bytesRead + request.delivered s.reader answer))
    (fun stop s' => request.LeavesOnStop s.reader stop s'.reader)

/-- The law together with the soundness that carries it over a sequence. -/
theorem perform_leads (request : Request) {s : Session} (h : s.reader.Sound) :
    request.perform.Leads s
      (fun answer s' => s'.reader.Sound ∧ s'.reader =
        s.reader.moved (request.target s.reader answer)
          (s.reader.bytesRead + request.delivered s.reader answer))
      (fun stop s' => s'.reader.Sound ∧ request.LeavesOnStop s.reader stop s'.reader) := by
  cases request with
  | seek offset =>
      simp only [perform, Scan.leads_bind, Scan.leads_pure, Read.leads_seek]
      split
      · exact ⟨h.sought ‹_›, rfl⟩
      · exact ⟨h, rfl⟩
  | skip count =>
      simp only [perform, Scan.leads_bind, Scan.leads_pure, Read.leads_skip, Read.leads_seek]
      split
      · exact ⟨h.sought ‹_›, rfl⟩
      · exact ⟨h, rfl⟩
  | chunkAt offset length =>
      simp only [perform, Scan.leads_bind, Scan.leads_pure]
      apply Read.leads_chunkAt_of_sound h
      · exact fun _ => ⟨h, rfl⟩
      · exact fun sound _ => ⟨sound, rfl⟩
  | recordAt offset length =>
      simp only [perform, Scan.leads_bind, Scan.leads_pure]
      apply Read.leads_recordAt_of_sound h
      · exact fun _ => ⟨h, rfl⟩
      · exact fun sound _ => ⟨sound, rfl, rfl⟩
      · intro sound hWhole _
        refine ⟨sound, ?_⟩
        simp only [target, isPositional, delivered, hWhole]
        rfl
  | chunk length =>
      simp only [perform, Scan.leads_bind, Scan.leads_pure]
      apply Read.leads_chunk_of_sound h
      · exact fun _ => ⟨h, rfl⟩
      · exact fun sound _ => ⟨sound, rfl⟩
  | record length =>
      simp only [perform, Scan.leads_bind, Scan.leads_pure]
      apply Read.leads_record_of_sound h
      · exact fun _ => ⟨h, rfl⟩
      · exact fun sound _ => ⟨sound, rfl, rfl⟩
      · intro sound hWhole _
        refine ⟨sound, ?_⟩
        simp only [target, isPositional, delivered, hWhole]
        rfl
  | word16 | word32 | word64 =>
      simp only [perform, Read.word16, Read.word32, Read.word64, Scan.leads_bind,
        Scan.leads_pure]
      apply Read.leads_record_of_sound h
      · exact fun _ => ⟨h, rfl⟩
      · exact fun sound _ => ⟨sound, rfl, rfl⟩
      · exact fun sound _ _ => ⟨sound, rfl⟩
  | stringAt offset maxLength =>
      simp only [perform, Scan.leads_bind, Scan.leads_pure]
      apply Read.leads_stringAt_of_sound h
      · exact fun _ => ⟨h, rfl⟩
      · exact fun _ => ⟨h, rfl⟩
      · exact fun sound _ => ⟨sound, rfl⟩

theorem lawful_of_sound (request : Request) {s : Session} (h : s.reader.Sound) :
    request.Lawful s :=
  (request.perform_leads h).mono (fun _ _ hDone => hDone.2) (fun _ _ hStop => hStop.2)

theorem after_sound (request : Request) {s : Session} (h : s.reader.Sound) :
    (request.after s).reader.Sound ∧ ∃ position,
      (request.after s).reader = s.reader.moved position
        (s.reader.bytesRead + request.consumed s) := by
  have law := request.perform_leads h
  unfold after consumed
  cases hAct : request.perform s with
  | ok answer s' =>
      obtain ⟨sound, hReader⟩ := law.ok hAct
      exact ⟨sound, _, hReader⟩
  | error stop s' =>
      obtain ⟨sound, hReader⟩ := law.error hAct
      refine ⟨sound, ?_⟩
      match stop, hReader with
      | .error (.outOfBounds ..), hReader => exact ⟨s.reader.position, hReader⟩
      | .error (.readLimitExceeded ..), hReader => exact ⟨s.reader.position, hReader⟩
      | .error (.shortRead ..), hReader => exact ⟨_, hReader.2⟩

theorem position_after_of_isPositional {request : Request} {s : Session} (h : s.reader.Sound)
    (positional : request.isPositional = true) :
    (request.after s).reader.position = s.reader.position := by
  have law := request.lawful_of_sound h
  unfold after
  cases hAct : request.perform s with
  | ok answer s' =>
      have hTarget : request.target s.reader answer = s.reader.position := by
        cases request <;> first | rfl | cases positional
      rw [law.ok hAct]
      exact hTarget
  | error stop s' =>
      have hStop := law.error hAct
      match stop, hStop with
      | .error (.outOfBounds ..), hStop => exact congrArg Reader.position hStop
      | .error (.readLimitExceeded ..), hStop => exact congrArg Reader.position hStop
      | .error (.shortRead ..), hStop =>
          simp only [hStop.2, positional, if_true, Reader.moved_position]

/-- The invariant of a sequence, by induction on the requests: the reader stays sound, and each
request adds what it consumed. -/
theorem run_sound (requests : List Request) {s : Session} (h : s.reader.Sound) :
    (run requests s).reader.Sound ∧ ∃ position,
      (run requests s).reader = s.reader.moved position
        (s.reader.bytesRead + totalConsumed requests s) := by
  induction requests generalizing s with
  | nil => exact ⟨h, s.reader.position, rfl⟩
  | cons request rest ih =>
      obtain ⟨hAfter, p, hReader⟩ := request.after_sound h
      obtain ⟨hRest, q, hLast⟩ := ih hAfter
      refine ⟨hRest, q, ?_⟩
      rw [run, totalConsumed, hLast, hReader, Reader.moved_moved, Reader.moved_bytesRead,
        Nat.add_assoc]

/-- However requests are mixed, the reader stays on its file, inside it and inside its budget; it
has counted exactly what was delivered or looked at; and the next request, whichever it is,
follows the law. -/
theorem run_accounts {label : String} {content : ByteArray} {limits : Limits} {r : Reader}
    (budgeted : limits.maxReadBytes.toNat < 2 ^ 64 - 1)
    (made : Reader.ofBytes label content limits = .ok r) (log : Array LogEntry)
    (requests : List Request) :
    let s := run requests ⟨r, log⟩
    s.reader.label = label ∧ s.reader.content = content ∧ s.reader.limits = limits ∧
      s.reader.position ≤ content.size ∧
      s.reader.bytesRead ≤ limits.maxReadBytes.toNat ∧
      s.reader.bytesRead = totalConsumed requests ⟨r, log⟩ ∧
      ∀ request : Request, request.Lawful s ∧
        (request.isPositional = true →
          (request.after s).reader.position = s.reader.position) := by
  intro s
  obtain ⟨sound, rfl⟩ := Reader.sound_ofBytes budgeted made
  obtain ⟨hSound, position, hReader⟩ := run_sound requests (s := ⟨_, log⟩) sound
  have hSize : s.reader.size = content.size := congrArg Reader.size hReader
  have hLimits : s.reader.limits = limits := congrArg Reader.limits hReader
  refine ⟨congrArg Reader.label hReader, congrArg Reader.content hReader, hLimits,
    ?_, ?_, ?_, ?_⟩
  · rw [← hSize]
    exact hSound.position_le
  · rw [← hLimits]
    exact hSound.bytesRead_le
  · exact (congrArg Reader.bytesRead hReader).trans (Nat.zero_add _)
  · intro request
    exact ⟨request.lawful_of_sound hSound, position_after_of_isPositional hSound⟩

theorem run_accounts_mixed :
    let r : Reader := { label := "m", content := ⟨#[97, 98, 0, 99, 100]⟩, limits := ⟨8, 7⟩ }
    let requests := [seek 3, record 4, stringAt 0 9, chunkAt 0 5, skip 1, word16]
    Reader.ofBytes r.label r.content r.limits = .ok r ∧
      (run requests ⟨r, #[]⟩).reader.bytesRead = totalConsumed requests ⟨r, #[]⟩ ∧
      totalConsumed requests ⟨r, #[]⟩ = 5 ∧
      ∀ request : Request, request.Lawful (run requests ⟨r, #[]⟩) := by
  intro r requests
  have budgeted : r.limits.maxReadBytes.toNat < 2 ^ 64 - 1 := by decide
  have made : Reader.ofBytes r.label r.content r.limits = .ok r := rfl
  obtain ⟨_, _, _, _, _, hTotal, hLaw⟩ := run_accounts budgeted made #[] requests
  exact ⟨made, hTotal, by decide, fun request => (hLaw request).1⟩

end Request
end PortableExecutable
