import PortableExecutable.Directory
import PortableExecutable.Proofs.Coupling.Rules

/-!
Reads under a coupling. What a coupling has to satisfy is said of single moves of a reader: being
moved, being charged, and being asked for budget. From that every read agrees with itself, and with
it whatever looks no further than the bytes and the cursor of a reader.
-/

namespace PortableExecutable

/-- The budget did not cover a read. -/
def ReadError.IsRefusal (e : ReadError) : Prop :=
  ∃ limit current, e = .readLimitExceeded limit current

/-- Run beside itself, the computation comes to the same. -/
abbrev Scan.Respects {ε α : Type} [Caused ε] (act : Scan ε α) (C : Coupling) : Prop :=
  C.Agrees act act

namespace Coupling

/-- What single moves of the two readers do to a coupling. -/
structure Lawful (C : Coupling) : Prop where
  content_eq : ∀ {r₁ r₂}, C.Alike r₁ r₂ → r₁.content = r₂.content
  position_eq : ∀ {r₁ r₂}, C.Alike r₁ r₂ → r₁.position = r₂.position
  moved : ∀ {r₁ r₂}, C.Alike r₁ r₂ → ∀ position,
    C.Alike (r₁.moved position r₁.bytesRead) (r₂.moved position r₂.bytesRead)
  charged : ∀ {r₁ r₂}, C.Alike r₁ r₂ → ∀ count, r₁.bytesRead + count < 2 ^ 64 →
    r₂.bytesRead + count < 2 ^ 64 ∧ C.Alike (r₁.charged count) (r₂.charged count)
  overflowed : ∀ {r₁ r₂}, C.Alike r₁ r₂ → ∀ count, ¬ r₁.bytesRead + count < 2 ^ 64 →
    C.Excused (.fault .overflow) ∨ ¬ r₂.bytesRead + count < 2 ^ 64
  afforded : ∀ {r₁ r₂}, C.Alike r₁ r₂ → ∀ length, r₁.Affords length → r₂.Affords length
  refused : ∀ {r₁ r₂}, C.Alike r₁ r₂ → ∀ length, ¬ r₁.Affords length →
    C.Excused (.error r₁.refusal) ∨
      ∀ log : Array LogEntry, C.Parted (log.push ⟨r₁.refusalEvent length, []⟩)
  pushed : ∀ {log}, C.Parted log → ∀ entry, C.Parted (log.push entry)
  isRefusal : ∀ {e}, C.Excused (.error e) → e.IsRefusal

variable {ε α β : Type} [Caused ε] {C : Coupling}

theorem Lawful.size_eq (lawful : C.Lawful) {r₁ r₂ : Reader} (alike : C.Alike r₁ r₂) :
    r₁.size = r₂.size := by
  rw [Reader.size_eq, Reader.size_eq, lawful.content_eq alike]

/-- The two runs may log different events. -/
theorem agrees_emit (lawful : C.Lawful) {e₁ e₂ : Event} :
    C.Agrees (Scan.emit e₁ : Scan ε Unit) (Scan.emit e₂) :=
  ⟨fun _ _ alike => .delivered () alike, fun _ parted => lawful.pushed parted _⟩

theorem respects_emit (lawful : C.Lawful) {event : Event} :
    (Scan.emit event : Scan ε Unit).Respects C :=
  agrees_emit lawful

/-- What follows a look at the reader sees two readers of the same bytes at the same place. -/
theorem agrees_reader_bind (lawful : C.Lawful) {next₁ next₂ : Reader → Scan ε β}
    (rest : ∀ r₁ r₂, r₁.content = r₂.content → r₁.position = r₂.position →
      C.Agrees (next₁ r₁) (next₂ r₂)) :
    C.Agrees (Scan.reader >>= next₁) (Scan.reader >>= next₂) := by
  constructor
  · intro s₁ s₂ alike
    exact (rest s₁.reader s₂.reader (lawful.content_eq alike) (lawful.position_eq alike)).meets
      s₁ s₂ alike
  · intro s parted
    exact (rest s.reader s.reader rfl rfl).staysParted s parted

theorem respects_requireBudget (lawful : C.Lawful) {length : Nat} :
    (Read.requireBudget length).Respects C := by
  constructor
  · intro s₁ s₂ alike
    by_cases affords : s₁.reader.Affords length
    · rw [Read.requireBudget_of_affords affords,
        Read.requireBudget_of_affords (lawful.afforded alike length affords)]
      exact .delivered () alike
    · rw [Read.requireBudget_of_not_affords affords]
      cases lawful.refused alike length affords with
      | inl excused => exact .excused ⟨_, rfl, excused⟩
      | inr parted => exact .partedStopping (parted s₁.log)
  · intro s parted
    by_cases affords : s.reader.Affords length
    · rw [Scan.Leads, Read.requireBudget_of_affords affords]
      exact parted
    · rw [Scan.Leads, Read.requireBudget_of_not_affords affords]
      exact lawful.pushed parted _

theorem respects_charge (lawful : C.Lawful) {count : Nat} : (Read.charge count).Respects C := by
  constructor
  · intro s₁ s₂ alike
    by_cases fits : s₁.reader.bytesRead + count < 2 ^ 64
    · obtain ⟨fits₂, alike'⟩ := lawful.charged alike count fits
      rw [Read.charge_of_lt fits, Read.charge_of_lt fits₂]
      exact .delivered () alike'
    · rw [Read.charge_of_not_lt fits]
      cases lawful.overflowed alike count fits with
      | inl excused => exact .excused ⟨_, rfl, excused⟩
      | inr fits₂ =>
          rw [Read.charge_of_not_lt fits₂]
          exact .stopped (.fault .overflow) alike
  · intro s parted
    rw [Read.leads_charge]
    split
    · exact parted
    · exact parted

theorem respects_advance (lawful : C.Lawful) {count : Nat} :
    (Read.advance count).Respects C := by
  constructor
  · intro s₁ s₂ alike
    have hPosition := lawful.position_eq alike
    by_cases fits : s₁.reader.position + count < 2 ^ 64
    · rw [Read.advance_of_lt fits, Read.advance_of_lt (hPosition ▸ fits), hPosition]
      exact .delivered () (lawful.moved alike _)
    · rw [Read.advance_of_not_lt fits, Read.advance_of_not_lt (hPosition ▸ fits)]
      exact .stopped (.fault .overflow) alike
  · intro s parted
    rw [Read.leads_advance]
    split
    · exact parted
    · exact parted

theorem respects_seek (lawful : C.Lawful) {offset : Nat} : (Read.seek offset).Respects C := by
  constructor
  · intro s₁ s₂ alike
    have hSize := lawful.size_eq alike
    by_cases inside : offset ≤ s₁.reader.size
    · rw [Read.seek_of_le inside, Read.seek_of_le (hSize ▸ inside)]
      exact .delivered () (lawful.moved alike offset)
    · rw [Read.seek_of_not_le inside, Read.seek_of_not_le (hSize ▸ inside), hSize]
      exact .stopped _ alike
  · intro s parted
    rw [Read.leads_seek]
    split
    · exact parted
    · exact parted

theorem respects_chunkAt (lawful : C.Lawful) {offset length : Nat} :
    (Read.chunkAt offset length).Respects C := by
  refine (respects_requireBudget lawful).bind fun _ => ?_
  refine agrees_reader_bind lawful fun r₁ r₂ hContent _ => ?_
  obtain ⟨label₁, content, limits₁, position₁, bytesRead₁⟩ := r₁
  obtain ⟨label₂, _, limits₂, position₂, bytesRead₂⟩ := r₂
  cases hContent
  refine agrees_dite (fun inside => ?_) fun _ => agrees_pure
  refine (respects_charge lawful).bind fun _ => ?_
  refine agrees_reader_bind lawful fun _ _ _ _ => ?_
  exact (agrees_emit lawful).bind fun _ => agrees_pure

theorem respects_complete {offset length : Nat} {bytes : ByteArray} :
    (Read.complete offset length bytes).Respects C := by
  rw [Read.complete]
  split
  · exact agrees_pure
  · exact agrees_fail

theorem respects_recordAt (lawful : C.Lawful) {offset length : Nat} :
    (Read.recordAt offset length).Respects C :=
  (respects_chunkAt lawful).bind fun _ => respects_complete

theorem respects_chunk (lawful : C.Lawful) {length : Nat} : (Read.chunk length).Respects C := by
  refine agrees_reader_bind lawful fun r₁ r₂ _ hPosition => ?_
  rw [hPosition]
  refine (respects_chunkAt lawful).bind fun _ => ?_
  exact (respects_advance lawful).bind fun _ => agrees_pure

theorem respects_record (lawful : C.Lawful) {length : Nat} : (Read.record length).Respects C := by
  refine agrees_reader_bind lawful fun r₁ r₂ _ hPosition => ?_
  dsimp only
  rw [hPosition]
  exact (respects_chunk lawful).bind fun _ => respects_complete

theorem respects_word32 (lawful : C.Lawful) : Read.word32.Respects C :=
  (respects_record lawful).bind fun _ => agrees_pure

theorem respects_word64 (lawful : C.Lawful) : Read.word64.Respects C :=
  (respects_record lawful).bind fun _ => agrees_pure

theorem respects_stringAt (lawful : C.Lawful) {offset maxLength : Nat} :
    (Read.stringAt offset maxLength).Respects C := by
  refine agrees_reader_bind lawful fun r₁ r₂ hContent _ => ?_
  obtain ⟨label₁, content, limits₁, position₁, bytesRead₁⟩ := r₁
  obtain ⟨label₂, _, limits₂, position₂, bytesRead₂⟩ := r₂
  cases hContent
  refine agrees_dite (fun inside => ?_) fun _ => agrees_fail
  refine (respects_requireBudget lawful).bind fun _ => ?_
  exact (respects_charge lawful).bind fun _ => agrees_pure

theorem Agrees.reading {piece : Piece} {act₁ act₂ : Read α} (h : C.Agrees act₁ act₂) :
    C.Agrees (ImageScan.reading piece act₁) (ImageScan.reading piece act₂) :=
  h.mapError fun _ => rfl

theorem Agrees.io {act₁ act₂ : Read α} (h : C.Agrees act₁ act₂) :
    C.Agrees (ImageScan.io act₁) (ImageScan.io act₂) :=
  h.mapError fun _ => rfl

/-- An unreachable place has nothing to do with the budget, so the cause may be dropped. -/
theorem respects_reach (lawful : C.Lawful) {piece : Piece} {offset : Nat} :
    (ImageScan.reach piece offset).Respects C := by
  constructor
  · intro s₁ s₂ alike
    have hSize := lawful.size_eq alike
    simp only [ImageScan.reach, Scan.mapError]
    by_cases inside : offset ≤ s₁.reader.size
    · rw [Read.seek_of_le inside, Read.seek_of_le (hSize ▸ inside)]
      exact .delivered () (lawful.moved alike offset)
    · rw [Read.seek_of_not_le inside, Read.seek_of_not_le (hSize ▸ inside)]
      exact .stopped _ alike
  · intro s parted
    rw [ImageScan.reach, Scan.leads_mapError]
    exact (respects_seek lawful).staysParted s parted

end Coupling
end PortableExecutable
