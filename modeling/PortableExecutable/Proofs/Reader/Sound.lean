import PortableExecutable.Proofs.Reader.Steps

/-!
Readers that stand inside their file and inside their budget. With a budget below the largest
64-bit number no step of such a reader leaves its range, because the budget is asked for at least
as much as is charged; the rules here have no case for a fault, and every reader they lead to is
sound again.
-/

namespace PortableExecutable
namespace Reader

structure Sound (r : Reader) : Prop where
  position_le : r.position ≤ r.size
  bytesRead_le : r.bytesRead ≤ r.limits.maxReadBytes.toNat
  size_lt : r.size < 2 ^ 64
  budget_lt : r.limits.maxReadBytes.toNat < 2 ^ 64 - 1

theorem sound_ofBytes {label : String} {content : ByteArray} {limits : Limits} {r : Reader}
    (budgeted : limits.maxReadBytes.toNat < 2 ^ 64 - 1)
    (made : ofBytes label content limits = .ok r) :
    r.Sound ∧ r = { label, content, limits } := by
  unfold ofBytes at made
  split at made
  · cases made
  · next fits =>
      cases made
      have hSize : limits.maxFileSize.toNat < 2 ^ 64 := limits.maxFileSize.toNat_lt
      exact ⟨⟨Nat.zero_le _, Nat.zero_le _, by simp only [size]; omega, budgeted⟩, rfl⟩

namespace Sound

variable {r : Reader}

theorem affords_iff (h : r.Sound) (length : Nat) :
    r.Affords length ↔ r.bytesRead + length ≤ r.limits.maxReadBytes.toNat := by
  have hBudget := h.budget_lt
  simp only [Affords, Limits.allows, decide_eq_true_eq, Scan.size_uint64]
  omega

theorem bytesRead_add_lt (h : r.Sound) {count length : Nat} (hCount : count ≤ length)
    (covered : r.Affords length) : r.bytesRead + count < 2 ^ 64 := by
  have hLength := (h.affords_iff length).mp covered
  have hBudget := h.budget_lt
  omega

/-- The cursor may go anywhere in the file, and what is spent may grow by what was asked for. -/
theorem moved (h : r.Sound) {position count length : Nat} (inside : position ≤ r.size)
    (hCount : count ≤ length) (covered : r.Affords length) :
    (r.moved position (r.bytesRead + count)).Sound := by
  have hLength := (h.affords_iff length).mp covered
  exact ⟨inside, by simp only [moved_bytesRead, moved_limits]; omega, h.size_lt, h.budget_lt⟩

theorem sought (h : r.Sound) {position : Nat} (inside : position ≤ r.size) :
    (r.moved position r.bytesRead).Sound :=
  ⟨inside, h.bytesRead_le, h.size_lt, h.budget_lt⟩

end Sound

theorem size_bytesAt_le (r : Reader) (offset length : Nat) :
    (r.bytesAt offset length).size ≤ length := by
  rw [size_bytesAt]
  omega

theorem add_size_bytesAt_le (r : Reader) {offset : Nat} (length : Nat) (h : offset ≤ r.size) :
    offset + (r.bytesAt offset length).size ≤ r.size := by
  rw [size_bytesAt]
  omega

end Reader

namespace Read

variable {s : Session} {stopped : Stop ReadError → Session → Prop}

theorem leads_chunkAt_of_sound {offset length : Nat} {done : ByteArray → Session → Prop}
    (h : s.reader.Sound)
    (refused : ∀ log, stopped (.error s.reader.refusal) ⟨s.reader, log⟩)
    (delivered : (s.reader.charged (s.reader.bytesAt offset length).size).Sound → ∀ log,
      done (s.reader.bytesAt offset length)
        ⟨s.reader.charged (s.reader.bytesAt offset length).size, log⟩) :
    (chunkAt offset length).Leads s done stopped := by
  have hLength := s.reader.size_bytesAt_le offset length
  apply leads_chunkAt
  · intro _
    exact refused
  · intro covered hSum
    have hLt := h.bytesRead_add_lt hLength covered
    omega
  · intro covered
    exact delivered (h.moved h.position_le hLength covered)

theorem leads_recordAt_of_sound {offset length : Nat} {done : Record length → Session → Prop}
    (h : s.reader.Sound)
    (refused : ∀ log, stopped (.error s.reader.refusal) ⟨s.reader, log⟩)
    (short : (s.reader.charged (s.reader.bytesAt offset length).size).Sound → ∀ log, stopped
      (.error (.shortRead offset length (s.reader.bytesAt offset length).size))
      ⟨s.reader.charged (s.reader.bytesAt offset length).size, log⟩)
    (whole : (s.reader.charged length).Sound →
      ∀ h : (s.reader.bytesAt offset length).size = length,
      ∀ log, done ⟨s.reader.bytesAt offset length, h⟩ ⟨s.reader.charged length, log⟩) :
    (recordAt offset length).Leads s done stopped := by
  have hLength := s.reader.size_bytesAt_le offset length
  apply leads_recordAt
  · intro _
    exact refused
  · intro covered hSum
    have hLt := h.bytesRead_add_lt hLength covered
    omega
  · intro covered _
    exact short (h.moved h.position_le hLength covered)
  · intro covered
    exact whole (h.moved h.position_le (Nat.le_refl _) covered)

theorem leads_chunk_of_sound {length : Nat} {done : ByteArray → Session → Prop}
    (h : s.reader.Sound)
    (refused : ∀ log, stopped (.error s.reader.refusal) ⟨s.reader, log⟩)
    (delivered :
      (s.reader.advanced (s.reader.bytesAt s.reader.position length).size).Sound → ∀ log,
      done (s.reader.bytesAt s.reader.position length)
        ⟨s.reader.advanced (s.reader.bytesAt s.reader.position length).size, log⟩) :
    (chunk length).Leads s done stopped := by
  have hLength := s.reader.size_bytesAt_le s.reader.position length
  have hInside := s.reader.add_size_bytesAt_le length h.position_le
  apply leads_chunk
  · intro _
    exact refused
  · intro covered hSum
    have hLt := h.bytesRead_add_lt hLength covered
    have hSize := h.size_lt
    omega
  · intro covered
    exact delivered (h.moved hInside hLength covered)

theorem leads_record_of_sound {length : Nat} {done : Record length → Session → Prop}
    (h : s.reader.Sound)
    (refused : ∀ log, stopped (.error s.reader.refusal) ⟨s.reader, log⟩)
    (short : (s.reader.advanced (s.reader.bytesAt s.reader.position length).size).Sound →
      ∀ log, stopped
        (.error (.shortRead s.reader.position length
          (s.reader.bytesAt s.reader.position length).size))
        ⟨s.reader.advanced (s.reader.bytesAt s.reader.position length).size, log⟩)
    (whole : (s.reader.advanced length).Sound →
      ∀ h : (s.reader.bytesAt s.reader.position length).size = length,
      ∀ log, done ⟨s.reader.bytesAt s.reader.position length, h⟩
        ⟨s.reader.advanced length, log⟩) :
    (record length).Leads s done stopped := by
  have hLength := s.reader.size_bytesAt_le s.reader.position length
  have hInside := s.reader.add_size_bytesAt_le length h.position_le
  apply leads_record
  · intro _
    exact refused
  · intro covered hSum
    have hLt := h.bytesRead_add_lt hLength covered
    have hSize := h.size_lt
    omega
  · intro covered _
    exact short (h.moved hInside hLength covered)
  · intro covered hWhole
    rw [hWhole] at hInside
    exact whole (h.moved hInside (Nat.le_refl _) covered) hWhole

theorem leads_stringAt_of_sound {offset maxLength : Nat} {done : String → Session → Prop}
    (h : s.reader.Sound)
    (outside : s.reader.size ≤ offset →
      stopped (.error (.outOfBounds offset s.reader.size)) s)
    (refused : ∀ log, stopped (.error s.reader.refusal) ⟨s.reader, log⟩)
    (delivered : (s.reader.charged (stringCost (s.reader.window offset maxLength))).Sound →
      ∀ log, done (Utf8.decode ((s.reader.window offset maxLength).takeWhile (· != 0)))
        ⟨s.reader.charged (stringCost (s.reader.window offset maxLength)), log⟩) :
    (stringAt offset maxLength).Leads s done stopped := by
  apply leads_stringAt outside
  · intro _ _
    exact refused
  · intro covered hSum
    have hLt := h.bytesRead_add_lt (Nat.le_refl _) covered
    omega
  · intro _ covered
    exact delivered (h.moved h.position_le (Nat.le_refl _) covered)

end Read
end PortableExecutable
