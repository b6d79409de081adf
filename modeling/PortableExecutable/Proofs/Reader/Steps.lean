import Mathlib.Data.List.TakeWhile
import Mathlib.Tactic.SplitIfs
import PortableExecutable.Proofs.Outcome

/-!
What each step of a reader leads to. A step asks the budget for what it wants, delivers what the
file has, and charges for what it delivers; so every rule has a case for a refused budget, one for
a sum that leaves 64 bits, and one or two for what the file has. The log is left open, because no
step depends on it. Nothing here assumes that the reader is inside its file or its budget. The
moves that steps are made of, and the two reads that all others come down to, also stand as
equations, for where the log matters and for runs that are followed side by side.
-/

namespace PortableExecutable
namespace Reader

variable (r : Reader)

/-- The reader at another place and with another part of its budget spent. -/
def moved (position bytesRead : Nat) : Reader := { r with position, bytesRead }

@[simp] theorem moved_label (p n : Nat) : (r.moved p n).label = r.label := rfl

@[simp] theorem moved_content (p n : Nat) : (r.moved p n).content = r.content := rfl

@[simp] theorem moved_limits (p n : Nat) : (r.moved p n).limits = r.limits := rfl

@[simp] theorem moved_position (p n : Nat) : (r.moved p n).position = p := rfl

@[simp] theorem moved_bytesRead (p n : Nat) : (r.moved p n).bytesRead = n := rfl

@[simp] theorem moved_size (p n : Nat) : (r.moved p n).size = r.size := rfl

@[simp] theorem moved_moved (p n p' n' : Nat) : (r.moved p n).moved p' n' = r.moved p' n' := rfl

/-- The reader after a read that leaves the cursor alone. -/
def charged (count : Nat) : Reader := r.moved r.position (r.bytesRead + count)

theorem charged_charged (m n : Nat) : (r.charged m).charged n = r.charged (m + n) := by
  simp only [charged, moved_moved, moved_position, moved_bytesRead, Nat.add_assoc]

/-- The reader after a read that moves the cursor. -/
def advanced (count : Nat) : Reader := r.moved (r.position + count) (r.bytesRead + count)

/-- The bytes of a stretch of the file, as far as the file goes. -/
def bytesAt (offset length : Nat) : ByteArray := r.content.extract offset (offset + length)

theorem size_bytesAt (offset length : Nat) :
    (r.bytesAt offset length).size = min (offset + length) r.size - offset :=
  ByteArray.size_extract

theorem bytesAt_of_size_le {offset length : Nat} (h : r.size ≤ offset) :
    r.bytesAt offset length = ByteArray.empty := by
  apply ByteArray.extract_eq_empty_iff.mpr
  change min (offset + length) r.size ≤ offset
  omega

/-- The part of the file in which a string is looked for. -/
def window (offset maxLength : Nat) : List UInt8 := (r.bytesAt offset maxLength).data.toList

/-- A slice whose end is cut to the file is a stretch of the file. -/
theorem extract_min_eq_bytesAt (offset length : Nat) :
    r.content.extract offset (min (offset + length) r.size) = r.bytesAt offset length := by
  apply ByteArray.ext
  simp only [bytesAt, ByteArray.data_extract]
  by_cases h : offset + length ≤ r.size
  · rw [Nat.min_eq_left h]
  · have hSize : r.size < offset + length := by omega
    rw [Nat.min_eq_right (by omega), Array.extract_of_size_lt hSize]
    rfl

/-- The budget still covers a read. -/
def Affords (length : Nat) : Prop := r.limits.allows r.bytesRead length = true

instance (length : Nat) : Decidable (r.Affords length) :=
  inferInstanceAs (Decidable (r.limits.allows r.bytesRead length = true))

/-- The error of a read that the budget does not cover. -/
def refusal : ReadError := .readLimitExceeded r.limits.maxReadBytes.toNat r.bytesRead

/-- What is logged of a read that the budget does not cover. -/
def refusalEvent (requested : Nat) : Event :=
  .readLimitExceeded r.label r.bytesRead requested r.limits.maxReadBytes.toNat

end Reader

theorem zero_not_mem_takeWhile (window : List UInt8) : 0 ∉ window.takeWhile (· != 0) := by
  have nonzero : (window.takeWhile (· != 0)).all (· != 0) = true := List.all_takeWhile
  intro hMem
  simpa using List.all_eq_true.mp nonzero 0 hMem

/-- What a string costs that is looked for in a window: its bytes and its zero, or the whole window
if there is no zero in it. -/
def stringCost (window : List UInt8) : Nat :=
  if 0 ∈ window then (window.takeWhile (· != 0)).length + 1 else window.length

/-- The zero is paid for where the window reaches over it, be it its last byte, and only there. -/
example : [2, 3, 4].map (fun length => stringCost ([97, 98, 0, 99].take length)) = [2, 3, 3] := by
  decide

theorem stringCost_eq_min (window : List UInt8) :
    stringCost window = min ((window.takeWhile (· != 0)).length + 1) window.length := by
  have hPrefix : window.takeWhile (· != 0) <+: window := List.takeWhile_prefix _
  unfold stringCost
  split
  case isTrue zero =>
    have shorter : (window.takeWhile (· != 0)).length ≠ window.length := by
      intro whole
      rw [← hPrefix.eq_of_length whole] at zero
      exact zero_not_mem_takeWhile window zero
    have hLength := hPrefix.length_le
    omega
  case isFalse nonzero =>
    have whole : window.takeWhile (· != 0) = window := by
      rw [List.takeWhile_eq_self_iff]
      intro b hMem
      exact bne_iff_ne.mpr fun zero => nonzero (zero ▸ hMem)
    rw [whole]
    omega

theorem stringCost_le (window : List UInt8) : stringCost window ≤ window.length := by
  rw [stringCost_eq_min]
  exact Nat.min_le_right _ _

namespace Read

variable {α : Type} {s : Session} {stopped : Stop ReadError → Session → Prop}

theorem requireBudget_of_affords {length : Nat} (h : s.reader.Affords length) :
    requireBudget length s = .ok () s := by
  have allowed : s.reader.limits.allows s.reader.bytesRead length = true := h
  rw [requireBudget, Scan.reader_bind, if_pos allowed]
  rfl

theorem requireBudget_of_not_affords {length : Nat} (h : ¬ s.reader.Affords length) :
    requireBudget length s = .error (.error s.reader.refusal)
      { s with log := s.log.push ⟨s.reader.refusalEvent length, []⟩ } := by
  have refused : ¬ s.reader.limits.allows s.reader.bytesRead length = true := h
  rw [requireBudget, Scan.reader_bind, if_neg refused]
  rfl

theorem charge_of_lt {count : Nat} (h : s.reader.bytesRead + count < 2 ^ 64) :
    charge count s = .ok () { s with reader := s.reader.charged count } := by
  rw [charge, Scan.reader_bind, Scan.sum_of_lt h]
  rfl

theorem charge_of_not_lt {count : Nat} (h : ¬ s.reader.bytesRead + count < 2 ^ 64) :
    charge count s = .error (.fault .overflow) s := by
  rw [charge, Scan.reader_bind, Scan.sum_of_not_lt h]
  rfl

theorem advance_of_lt {count : Nat} (h : s.reader.position + count < 2 ^ 64) :
    advance count s = .ok () { s with
      reader := s.reader.moved (s.reader.position + count) s.reader.bytesRead } := by
  rw [advance, Scan.reader_bind, Scan.sum_of_lt h]
  rfl

theorem advance_of_not_lt {count : Nat} (h : ¬ s.reader.position + count < 2 ^ 64) :
    advance count s = .error (.fault .overflow) s := by
  rw [advance, Scan.reader_bind, Scan.sum_of_not_lt h]
  rfl

theorem seek_of_le {offset : Nat} (h : offset ≤ s.reader.size) :
    seek offset s = .ok () { s with reader := s.reader.moved offset s.reader.bytesRead } :=
  if_neg (Nat.not_lt.mpr h)

theorem seek_of_not_le {offset : Nat} (h : ¬ offset ≤ s.reader.size) :
    seek offset s = .error (.error (.outOfBounds offset s.reader.size)) s :=
  if_pos (Nat.lt_of_not_le h)

/-- Reading a chunk: what is asked for is the whole length, what is paid is what the file has. -/
theorem chunkAt_eq (s : Session) (offset length : Nat) :
    let bytes := s.reader.bytesAt offset length
    chunkAt offset length s =
      if s.reader.Affords length then
        if offset < s.reader.size then
          if s.reader.bytesRead + bytes.size < 2 ^ 64 then
            .ok bytes ⟨s.reader.charged bytes.size, s.log.push
              ⟨.performedRead s.reader.label offset bytes.size
                (s.reader.bytesRead + bytes.size), []⟩⟩
          else .error (.fault .overflow) s
        else .ok ByteArray.empty s
      else .error (.error s.reader.refusal)
        { s with log := s.log.push ⟨s.reader.refusalEvent length, []⟩ } := by
  intro bytes
  by_cases covered : s.reader.Affords length
  case neg =>
    rw [chunkAt, Scan.bind_of_error (requireBudget_of_not_affords covered), if_neg covered]
  case pos =>
    rw [chunkAt, Scan.bind_of_ok (requireBudget_of_affords covered), if_pos covered,
      Scan.reader_bind]
    by_cases inside : offset < s.reader.size
    case neg =>
      rw [dif_neg inside, if_neg inside]
      rfl
    case pos =>
      have hStop : offset + min length (s.reader.size - offset) =
          min (offset + length) s.reader.size := by omega
      have hSlice : s.reader.content.extract offset
          (offset + min length (s.reader.size - offset)) = bytes := by
        rw [hStop, s.reader.extract_min_eq_bytesAt]
      rw [dif_pos inside, if_pos inside]
      simp only [slice, hSlice]
      by_cases fits : s.reader.bytesRead + bytes.size < 2 ^ 64
      case neg => rw [Scan.bind_of_error (charge_of_not_lt fits), if_neg fits]
      case pos =>
        rw [Scan.bind_of_ok (charge_of_lt fits), if_pos fits]
        rfl

/-- Reading a string, told from its window: inside the file its cost is asked for and paid. -/
theorem stringAt_eq (s : Session) (offset maxLength : Nat) :
    let cost := stringCost (s.reader.window offset maxLength)
    stringAt offset maxLength s =
      if offset < s.reader.size then
        if s.reader.Affords cost then
          if s.reader.bytesRead + cost < 2 ^ 64 then
            .ok (Utf8.decode ((s.reader.window offset maxLength).takeWhile (· != 0)))
              { s with reader := s.reader.charged cost }
          else .error (.fault .overflow) s
        else .error (.error s.reader.refusal)
          { s with log := s.log.push ⟨s.reader.refusalEvent cost, []⟩ }
      else .error (.error (.outOfBounds offset s.reader.size)) s := by
  intro cost
  rw [stringAt, Scan.reader_bind]
  by_cases inside : offset < s.reader.size
  case neg =>
    rw [dif_neg inside, if_neg inside]
    rfl
  case pos =>
    have hCost : min (((s.reader.bytesAt offset maxLength).data.toList.takeWhile
        (· != 0)).length + 1) (s.reader.bytesAt offset maxLength).size = cost :=
      (stringCost_eq_min _).symm
    rw [dif_pos inside, if_pos inside]
    simp only [slice, s.reader.extract_min_eq_bytesAt, hCost]
    by_cases covered : s.reader.Affords cost
    case neg => rw [Scan.bind_of_error (requireBudget_of_not_affords covered), if_neg covered]
    case pos =>
      rw [Scan.bind_of_ok (requireBudget_of_affords covered), if_pos covered]
      by_cases fits : s.reader.bytesRead + cost < 2 ^ 64
      case neg => rw [Scan.bind_of_error (charge_of_not_lt fits), if_neg fits]
      case pos =>
        rw [Scan.bind_of_ok (charge_of_lt fits), if_pos fits]
        rfl

theorem leads_seek {offset : Nat} {done : Unit → Session → Prop} :
    (seek offset).Leads s done stopped ↔
      if offset ≤ s.reader.size then
        done () { s with reader := s.reader.moved offset s.reader.bytesRead }
      else stopped (.error (.outOfBounds offset s.reader.size)) s := by
  simp only [Scan.Leads, seek]
  by_cases h : offset ≤ s.reader.size
  · rw [if_pos h, if_neg (by omega)]
    rfl
  · rw [if_neg h, if_pos (by omega)]

theorem leads_skip {count : Nat} {done : Unit → Session → Prop} :
    (skip count).Leads s done stopped ↔
      (seek (min (s.reader.position + count) (2 ^ 64 - 1))).Leads s done stopped := by
  simp only [skip, Scan.leads_bind, Scan.leads_reader, Scan.size_uint64]

theorem leads_charge {count : Nat} {done : Unit → Session → Prop} :
    (charge count).Leads s done stopped ↔
      if s.reader.bytesRead + count < 2 ^ 64 then
        done () { s with reader := s.reader.charged count }
      else stopped (.fault .overflow) s := by
  simp only [charge, Scan.leads_bind, Scan.leads_reader, Scan.leads_sum, Scan.leads_modify]
  rfl

theorem leads_advance {count : Nat} {done : Unit → Session → Prop} :
    (advance count).Leads s done stopped ↔
      if s.reader.position + count < 2 ^ 64 then
        done () { s with
          reader := s.reader.moved (s.reader.position + count) s.reader.bytesRead }
      else stopped (.fault .overflow) s := by
  simp only [advance, Scan.leads_bind, Scan.leads_reader, Scan.leads_sum, Scan.leads_modify]
  rfl

theorem leads_chunkAt {offset length : Nat} {done : ByteArray → Session → Prop}
    (refused : ¬ s.reader.Affords length →
      ∀ log, stopped (.error s.reader.refusal) ⟨s.reader, log⟩)
    (overflow : s.reader.Affords length →
      2 ^ 64 ≤ s.reader.bytesRead + (s.reader.bytesAt offset length).size →
      ∀ log, stopped (.fault .overflow) ⟨s.reader, log⟩)
    (delivered : s.reader.Affords length → ∀ log, done (s.reader.bytesAt offset length)
      ⟨s.reader.charged (s.reader.bytesAt offset length).size, log⟩) :
    (chunkAt offset length).Leads s done stopped := by
  rw [Scan.Leads, chunkAt_eq]
  split_ifs with covered inside fits
  · exact delivered covered _
  · exact overflow covered (Nat.le_of_not_lt fits) s.log
  · have hEmpty : s.reader.bytesAt offset length = ByteArray.empty :=
      s.reader.bytesAt_of_size_le (Nat.le_of_not_lt inside)
    have h := delivered covered s.log
    rw [hEmpty] at h
    exact h
  · exact refused covered _

theorem leads_recordAt {offset length : Nat} {done : Record length → Session → Prop}
    (refused : ¬ s.reader.Affords length →
      ∀ log, stopped (.error s.reader.refusal) ⟨s.reader, log⟩)
    (overflow : s.reader.Affords length →
      2 ^ 64 ≤ s.reader.bytesRead + (s.reader.bytesAt offset length).size →
      ∀ log, stopped (.fault .overflow) ⟨s.reader, log⟩)
    (short : s.reader.Affords length → (s.reader.bytesAt offset length).size ≠ length →
      ∀ log, stopped
        (.error (.shortRead offset length (s.reader.bytesAt offset length).size))
        ⟨s.reader.charged (s.reader.bytesAt offset length).size, log⟩)
    (whole : s.reader.Affords length →
      ∀ h : (s.reader.bytesAt offset length).size = length,
      ∀ log, done ⟨s.reader.bytesAt offset length, h⟩ ⟨s.reader.charged length, log⟩) :
    (recordAt offset length).Leads s done stopped := by
  simp only [recordAt, Scan.leads_bind]
  apply leads_chunkAt refused overflow
  intro covered log
  unfold complete
  split
  case isTrue h =>
    have hCharged : s.reader.charged (s.reader.bytesAt offset length).size =
        s.reader.charged length := congrArg s.reader.charged h
    rw [Scan.leads_pure, hCharged]
    exact whole covered h log
  case isFalse h => exact short covered h log

theorem leads_chunk {length : Nat} {done : ByteArray → Session → Prop}
    (refused : ¬ s.reader.Affords length →
      ∀ log, stopped (.error s.reader.refusal) ⟨s.reader, log⟩)
    (overflow : s.reader.Affords length →
      2 ^ 64 ≤ max s.reader.position s.reader.bytesRead +
        (s.reader.bytesAt s.reader.position length).size →
      ∀ s', stopped (.fault .overflow) s')
    (delivered : s.reader.Affords length → ∀ log,
      done (s.reader.bytesAt s.reader.position length)
        ⟨s.reader.advanced (s.reader.bytesAt s.reader.position length).size, log⟩) :
    (chunk length).Leads s done stopped := by
  simp only [chunk, Scan.leads_bind, Scan.leads_reader]
  apply leads_chunkAt refused
  · intro covered h
    exact fun log => overflow covered (by omega) ⟨s.reader, log⟩
  · intro covered log
    rw [leads_advance]
    split
    case isTrue => exact delivered covered log
    case isFalse h =>
      simp only [Reader.charged, Reader.moved_position] at h
      exact overflow covered (by omega) _

theorem leads_record {length : Nat} {done : Record length → Session → Prop}
    (refused : ¬ s.reader.Affords length →
      ∀ log, stopped (.error s.reader.refusal) ⟨s.reader, log⟩)
    (overflow : s.reader.Affords length →
      2 ^ 64 ≤ max s.reader.position s.reader.bytesRead +
        (s.reader.bytesAt s.reader.position length).size →
      ∀ s', stopped (.fault .overflow) s')
    (short : s.reader.Affords length →
      (s.reader.bytesAt s.reader.position length).size ≠ length → ∀ log, stopped
        (.error (.shortRead s.reader.position length
          (s.reader.bytesAt s.reader.position length).size))
        ⟨s.reader.advanced (s.reader.bytesAt s.reader.position length).size, log⟩)
    (whole : s.reader.Affords length →
      ∀ h : (s.reader.bytesAt s.reader.position length).size = length,
      ∀ log, done ⟨s.reader.bytesAt s.reader.position length, h⟩
        ⟨s.reader.advanced length, log⟩) :
    (record length).Leads s done stopped := by
  simp only [record, Scan.leads_bind, Scan.leads_reader]
  apply leads_chunk refused overflow
  intro covered log
  unfold complete
  split
  case isTrue h =>
    have hAdvanced : s.reader.advanced (s.reader.bytesAt s.reader.position length).size =
        s.reader.advanced length := congrArg s.reader.advanced h
    rw [Scan.leads_pure, hAdvanced]
    exact whole covered h log
  case isFalse h => exact short covered h log

theorem leads_stringAt {offset maxLength : Nat} {done : String → Session → Prop}
    (outside : s.reader.size ≤ offset →
      stopped (.error (.outOfBounds offset s.reader.size)) s)
    (refused : offset < s.reader.size →
      ¬ s.reader.Affords (stringCost (s.reader.window offset maxLength)) →
      ∀ log, stopped (.error s.reader.refusal) ⟨s.reader, log⟩)
    (overflow : s.reader.Affords (stringCost (s.reader.window offset maxLength)) →
      2 ^ 64 ≤ s.reader.bytesRead + stringCost (s.reader.window offset maxLength) →
      ∀ log, stopped (.fault .overflow) ⟨s.reader, log⟩)
    (delivered : offset < s.reader.size →
      s.reader.Affords (stringCost (s.reader.window offset maxLength)) → ∀ log,
      done (Utf8.decode ((s.reader.window offset maxLength).takeWhile (· != 0)))
        ⟨s.reader.charged (stringCost (s.reader.window offset maxLength)), log⟩) :
    (stringAt offset maxLength).Leads s done stopped := by
  by_cases inside : offset < s.reader.size
  case neg =>
    rw [Scan.Leads, stringAt_eq, if_neg inside]
    exact outside (Nat.le_of_not_lt inside)
  case pos =>
    by_cases covered : s.reader.Affords (stringCost (s.reader.window offset maxLength))
    case neg =>
      rw [Scan.Leads, stringAt_eq, if_pos inside, if_neg covered]
      exact refused inside covered _
    case pos =>
      by_cases fits : s.reader.bytesRead + stringCost (s.reader.window offset maxLength) < 2 ^ 64
      case neg =>
        rw [Scan.Leads, stringAt_eq, if_pos inside, if_pos covered, if_neg fits]
        exact overflow covered (Nat.le_of_not_lt fits) s.log
      case pos =>
        rw [Scan.Leads, stringAt_eq, if_pos inside, if_pos covered, if_pos fits]
        exact delivered inside covered s.log

end Read
end PortableExecutable
