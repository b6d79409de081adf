import PortableExecutable.Proofs.Coupling.Reads
import PortableExecutable.Proofs.Location
import PortableExecutable.Proofs.Stored

/-!
What a file decides about a computation. `Judges` says that the computation delivers exactly where
a condition on the file holds, what it then delivers, and with which errors it stops elsewhere. A
budget that refuses a read is the only thing that can come between. The condition is that of the
whole computation from its first step on: a step that fails refutes it, and the last one proves it.
-/

namespace PortableExecutable

/-- The error goes back to a read that the budget did not cover. -/
def ImageError.IsRefusal (e : ImageError) : Prop :=
  ∃ cause, e.cause? = some cause ∧ cause.IsRefusal

/-- What the budget can stop a run with: a refused read, or, if it is the largest there is, a count
of the bytes read that leaves 64 bits. -/
def Limits.Hinders (limits : Limits) : Stop ImageError → Prop
  | .error e => e.IsRefusal
  | .fault f => f = .overflow ∧ limits.maxReadBytes.toNat = 2 ^ 64 - 1

theorem Limits.hinders_refusal {limits : Limits} {r : Reader} {f : ReadError → ImageError}
    (keeps : ∀ e, (f e).cause? = some e) : limits.Hinders ((Stop.error r.refusal).map f) :=
  ⟨_, keeps _, _, _, rfl⟩

/-- The budget refuses nothing that the run asks for. -/
def Scan.Unhindered {α : Type} (act : ImageScan α) (s : Session) : Prop :=
  ∀ stop s', act s = .error stop s' → ¬ s.reader.limits.Hinders stop

/-- A reader inside its file and its budget. One place past the end of the file is still a 64-bit
number, and what is counted against the largest budget there is may be anything. -/
structure Reader.Inside (r : Reader) : Prop where
  position_le : r.position ≤ r.size
  size_lt : r.size < 2 ^ 64 - 1
  bytesRead_le : r.limits.maxReadBytes.toNat < 2 ^ 64 - 1 →
    r.bytesRead ≤ r.limits.maxReadBytes.toNat

/-- The session reads a file under limits and stands at a place of it. -/
structure Session.Reads (content : ByteArray) (limits : Limits) (position : Nat) (s : Session) :
    Prop where
  content_eq : s.reader.content = content
  limits_eq : s.reader.limits = limits
  position_eq : s.reader.position = position
  inside : s.reader.Inside

namespace Session.Reads

variable {content : ByteArray} {limits : Limits} {position : Nat} {s s' : Session}

theorem of_reader_eq (h : s.Reads content limits position) (hReader : s'.reader = s.reader) :
    s'.Reads content limits position := by
  obtain ⟨hContent, hLimits, hPosition, inside⟩ := h
  rw [← hReader] at hContent hLimits hPosition inside
  exact ⟨hContent, hLimits, hPosition, inside⟩

theorem size_lt (h : s.Reads content limits position) : content.size < 2 ^ 64 - 1 := by
  rw [← h.content_eq]
  exact h.inside.size_lt

theorem position_le (h : s.Reads content limits position) : position ≤ content.size := by
  rw [← h.content_eq, ← h.position_eq]
  exact h.inside.position_le

theorem bytesAt_eq (h : s.Reads content limits position) (offset length : Nat) :
    s.reader.bytesAt offset length = content.extract offset (offset + length) := by
  rw [Reader.bytesAt, h.content_eq]

theorem size_bytesAt (h : s.Reads content limits position) (offset length : Nat) :
    (s.reader.bytesAt offset length).size = min (offset + length) content.size - offset := by
  rw [h.bytesAt_eq, ByteArray.size_extract]

theorem affords_iff (h : s.Reads content limits position) {length : Nat} :
    s.reader.Affords length ↔
      min (s.reader.bytesRead + length) (2 ^ 64 - 1) ≤ limits.maxReadBytes.toNat := by
  rw [Reader.Affords, Limits.allows, decide_eq_true_eq, h.limits_eq, Scan.size_uint64]

/-- What a budget does not cover goes beyond it. -/
theorem lt_of_not_affords (h : s.Reads content limits position) {length : Nat}
    (refused : ¬ s.reader.Affords length) :
    limits.maxReadBytes.toNat < s.reader.bytesRead + length := by
  rw [h.affords_iff] at refused
  omega

/-- Of a read that the budget covers only the largest budget can lose count. -/
theorem hinders_overflow (h : s.Reads content limits position) {length count : Nat}
    (covered : s.reader.Affords length) (hCount : count ≤ length)
    (overflows : 2 ^ 64 ≤ s.reader.bytesRead + count) : limits.Hinders (.fault .overflow) := by
  have hBudget := limits.maxReadBytes.toNat_lt
  have hCovered := h.affords_iff.mp covered
  exact ⟨rfl, by omega⟩

/-- A read that the budget covers leaves the reader inside it. -/
theorem moved (h : s.Reads content limits position) {length count position' : Nat}
    (covered : s.reader.Affords length) (hCount : count ≤ length)
    (inside : position' ≤ content.size) (log : Array LogEntry) :
    Session.Reads content limits position'
      ⟨s.reader.moved position' (s.reader.bytesRead + count), log⟩ := by
  have hCovered := h.affords_iff.mp covered
  have hLimits := h.limits_eq
  refine ⟨h.content_eq, hLimits, rfl, ?_, h.inside.size_lt, ?_⟩
  · rwa [Reader.moved_position, Reader.moved_size, Reader.size_eq, h.content_eq]
  · rw [Reader.moved_bytesRead, Reader.moved_limits, hLimits]
    omega

/-- A record at a place is delivered where the file has it. Elsewhere the read is short, unless the
budget does not cover it. -/
theorem leads_recordAt (h : s.Reads content limits position) {offset length : Nat}
    {done : Record length → Session → Prop} {stopped : Stop ReadError → Session → Prop}
    (refused : limits.maxReadBytes.toNat < s.reader.bytesRead + length →
      ∀ log, stopped (.error s.reader.refusal) ⟨s.reader, log⟩)
    (overflow : limits.maxReadBytes.toNat = 2 ^ 64 - 1 →
      limits.maxReadBytes.toNat < s.reader.bytesRead + length →
      ∀ log, stopped (.fault .overflow) ⟨s.reader, log⟩)
    (short : ¬ (length = 0 ∨ offset + length ≤ content.size) → ∀ found s',
      s'.Reads content limits position →
        stopped (.error (.shortRead offset length found)) s')
    (whole : length = 0 ∨ offset + length ≤ content.size → ∀ r s',
      r.StoredAt content offset → s'.reader = s.reader.charged length →
        s'.Reads content limits position → done r s') :
    (Read.recordAt offset length).Leads s done stopped := by
  have hDelivered := h.size_bytesAt offset length
  have hBudget := limits.maxReadBytes.toNat_lt
  have hPosition := h.position_eq
  apply Read.leads_recordAt
  · intro unaffordable
    exact refused (h.lt_of_not_affords unaffordable)
  · intro covered overflows
    have hHinders := h.hinders_overflow covered (by omega) overflows
    exact overflow hHinders.2 (by omega)
  · intro covered cut log
    have hCount : (s.reader.bytesAt offset length).size ≤ length := by omega
    have hReads := h.moved covered hCount h.position_le log
    rw [← hPosition] at hReads
    refine short (by omega) _ _ ?_
    rw [← hPosition]
    exact hReads
  · intro covered complete log
    have hReads := h.moved covered (Nat.le_refl length) h.position_le log
    rw [← hPosition] at hReads
    refine whole (by omega) _ _ (h.bytesAt_eq offset length) rfl ?_
    rw [← hPosition]
    exact hReads

end Session.Reads

namespace Scan

variable {α β : Type} {limits : Limits} {s : Session} {accepted whole : Prop}
  {rejected : ImageError → Prop} {post : α → Session → Prop}

/-- The computation delivers exactly where `accepted` holds, as `post` says, and otherwise stops
with an error that `rejected` admits, unless the budget stops it. -/
def Judges (limits : Limits) (act : ImageScan α) (s : Session) (accepted : Prop)
    (rejected : ImageError → Prop) (post : α → Session → Prop) : Prop :=
  act.Leads s (fun a s' => accepted ∧ post a s')
    (fun stop _ => limits.Hinders stop ∨ ∃ e, stop = .error e ∧ ¬ accepted ∧ rejected e)

theorem Judges.mono {act : ImageScan α} {post' : α → Session → Prop}
    (h : Judges limits act s accepted rejected post)
    (hPost : ∀ a s', accepted → post a s' → post' a s') :
    Judges limits act s accepted rejected post' :=
  Leads.mono h (fun a s' hDone => ⟨hDone.1, hPost a s' hDone.1 hDone.2⟩) fun _ _ hStop => hStop

theorem Judges.iff {act : ImageScan α} {accepted' : Prop}
    (h : Judges limits act s accepted rejected post) (same : accepted ↔ accepted') :
    Judges limits act s accepted' rejected post := by
  rwa [← propext same]

/-- An error may be described by the condition that it refutes. -/
theorem Judges.reject {act : ImageScan α} {rejected' : ImageError → Prop}
    (h : Judges limits act s accepted rejected post)
    (describes : ∀ e, ¬ accepted → rejected e → rejected' e) :
    Judges limits act s accepted rejected' post := by
  apply Leads.mono h (fun _ _ hDone => hDone)
  rintro stop s' (hinders | ⟨e, rfl, refuted, hRejected⟩)
  · exact .inl hinders
  · exact .inr ⟨e, rfl, refuted, describes e refuted hRejected⟩

theorem Judges.bind {act : ImageScan α} {next : α → ImageScan β} {post' : β → Session → Prop}
    (first : Judges limits act s accepted rejected post) (needed : whole → accepted)
    (rest : ∀ a s', accepted → post a s' → Judges limits (next a) s' whole rejected post') :
    Judges limits (act >>= next) s whole rejected post' := by
  rw [Judges, leads_bind]
  apply Leads.mono first
  · intro a s' hDone
    exact rest a s' hDone.1 hDone.2
  · rintro stop s' (hinders | ⟨e, rfl, refuted, hRejected⟩)
    · exact .inl hinders
    · exact .inr ⟨e, rfl, fun h => refuted (needed h), hRejected⟩

theorem Judges.map {act : ImageScan α} {f : α → β} {post' : β → Session → Prop}
    (h : Judges limits act s accepted rejected fun a s' => post' (f a) s') :
    Judges limits (f <$> act) s accepted rejected post' := by
  rw [Judges, leads_map]
  exact h

theorem judges_pure {a : α} (holds : accepted) (hPost : post a s) :
    Judges limits (pure a) s accepted rejected post :=
  ⟨holds, hPost⟩

theorem judges_fail {e : ImageError} (refuted : ¬ accepted) (hRejected : rejected e) :
    Judges limits (fail e) s accepted rejected post :=
  .inr ⟨e, rfl, refuted, hRejected⟩

theorem judges_emit_bind {event : Event} {next : Unit → ImageScan α}
    (rest : ∀ log, Judges limits (next ()) ⟨s.reader, log⟩ accepted rejected post) :
    Judges limits (emit event >>= next) s accepted rejected post := by
  rw [Judges, leads_bind, leads_emit]
  exact rest _

theorem judges_reader_bind {next : Reader → ImageScan α}
    (rest : Judges limits (next s.reader) s accepted rejected post) :
    Judges limits (reader >>= next) s accepted rejected post := by
  rw [Judges, leads_bind]
  exact rest

theorem judges_sum_bind {a b : Nat} {next : Nat → ImageScan α} (hSum : a + b < 2 ^ 64)
    (rest : Judges limits (next (a + b)) s accepted rejected post) :
    Judges limits (sum a b >>= next) s accepted rejected post := by
  rw [Judges, leads_bind, leads_sum, if_pos hSum]
  exact rest

/-- A computation that gives a value leaves the judgement to what follows. -/
theorem Gives.judges_bind {act : ImageScan α} {next : α → ImageScan β}
    {post' : β → Session → Prop} {a : α} {r : Reader} (first : act.Gives s a r)
    (rest : ∀ log, Judges limits (next a) ⟨r, log⟩ whole rejected post') :
    Judges limits (act >>= next) s whole rejected post' := by
  obtain ⟨log, hAct⟩ := first
  rw [Judges, Leads, bind_of_ok hAct]
  exact rest log

section Verdict

variable {act : ImageScan α} (h : Judges s.reader.limits act s accepted rejected post)
  (unhindered : act.Unhindered s)

include h unhindered

theorem Judges.exists_ok (holds : accepted) : ∃ a s', act s = .ok a s' := by
  cases hRun : act s with
  | ok a s' => exact ⟨a, s', rfl⟩
  | error stop s' =>
      rcases Leads.error h hRun with hinders | ⟨_, _, refuted, _⟩
      · exact absurd hinders (unhindered stop s' hRun)
      · exact absurd holds refuted

theorem Judges.exists_error (refuted : ¬ accepted) :
    ∃ e s', act s = .error (.error e) s' ∧ rejected e := by
  cases hRun : act s with
  | ok a s' => exact absurd (Leads.ok h hRun).1 refuted
  | error stop s' =>
      rcases Leads.error h hRun with hinders | ⟨e, rfl, _, hRejected⟩
      · exact absurd hinders (unhindered stop s' hRun)
      · exact ⟨e, s', rfl, hRejected⟩

theorem Judges.exists_ok_iff : (∃ a s', act s = .ok a s') ↔ accepted :=
  ⟨fun ⟨_, _, hRun⟩ => (Leads.ok h hRun).1, h.exists_ok unhindered⟩

end Verdict

end Scan

namespace Layout

/-- The text that a file has at a place: what comes before the first zero, with no more than a
given number of bytes looked at. -/
def text (content : ByteArray) (offset maxLength : Nat) : String :=
  Utf8.decode ((bytes content offset maxLength).takeWhile (· != 0))

end Layout

namespace ImageScan

variable {content : ByteArray} {limits : Limits} {position offset length : Nat} {s : Session}
  {rejected : ImageError → Prop} {piece : Piece}

theorem judges_recordAt (h : s.Reads content limits position)
    (short : ∀ found, rejected (.truncated piece (.shortRead offset length found))) :
    Scan.Judges limits (reading piece (Read.recordAt offset length)) s
      (length = 0 ∨ offset + length ≤ content.size) rejected fun r s' =>
        r.StoredAt content offset ∧ s'.reader = s.reader.charged length ∧
          s'.Reads content limits position := by
  rw [Scan.Judges, leads_reading]
  apply h.leads_recordAt
  · intro _ _
    exact .inl (Limits.hinders_refusal fun _ => rfl)
  · intro largest _ _
    exact .inl ⟨rfl, largest⟩
  · intro outside found _ _
    exact .inr ⟨_, rfl, outside, short found⟩
  · intro inside r s' stored hReader h'
    exact ⟨inside, stored, hReader, h'⟩

theorem judges_record (h : s.Reads content limits position)
    (short : ∀ found, rejected (.truncated piece (.shortRead position length found))) :
    Scan.Judges limits (reading piece (Read.record length)) s
      (position + length ≤ content.size) rejected fun r s' =>
        r.StoredAt content position ∧ s'.Reads content limits (position + length) := by
  have hDelivered := h.size_bytesAt s.reader.position length
  have hPosition := h.position_eq
  have hInside := h.position_le
  have hSize := h.size_lt
  rw [Scan.Judges, leads_reading]
  apply Read.leads_record
  · intro _ _
    exact .inl (Limits.hinders_refusal fun _ => rfl)
  · intro covered overflows _
    -- the cursor stays inside the file, so it is the count of bytes that is lost
    have hOver : 2 ^ 64 ≤ s.reader.bytesRead +
        (s.reader.bytesAt s.reader.position length).size := by omega
    exact .inl (h.hinders_overflow covered (by omega) hOver)
  · intro _ cut _
    rw [hPosition]
    exact .inr ⟨_, rfl, by omega, short _⟩
  · intro covered whole log
    have hEnd : position + length ≤ content.size := by omega
    refine ⟨hEnd, ?_, ?_⟩
    · rw [Record.StoredAt, ← hPosition]
      exact h.bytesAt_eq s.reader.position length
    · rw [Reader.advanced, hPosition]
      exact h.moved covered (Nat.le_refl length) hEnd log

/-- A chunk at the cursor is what the file has of it. -/
theorem judges_chunk (h : s.Reads content limits position) :
    Scan.Judges limits (io (Read.chunk length)) s True rejected fun chunk s' =>
      chunk = content.extract position (position + length) ∧
        s'.Reads content limits (position + chunk.size) := by
  have hDelivered := h.size_bytesAt s.reader.position length
  have hPosition := h.position_eq
  have hInside := h.position_le
  have hSize := h.size_lt
  rw [Scan.Judges, leads_io]
  apply Read.leads_chunk
  · intro _ _
    exact .inl (Limits.hinders_refusal fun _ => rfl)
  · intro covered overflows _
    have hOver : 2 ^ 64 ≤ s.reader.bytesRead +
        (s.reader.bytesAt s.reader.position length).size := by omega
    exact .inl (h.hinders_overflow covered (by omega) hOver)
  · intro covered log
    refine ⟨trivial, ?_, ?_⟩
    · rw [← hPosition]
      exact h.bytesAt_eq s.reader.position length
    · rw [Reader.advanced, ← hPosition]
      exact h.moved covered (by omega) (by omega) log

theorem judges_word32 (h : s.Reads content limits position)
    (short : ∀ found, rejected (.truncated piece (.shortRead position 4 found))) :
    Scan.Judges limits (reading piece Read.word32) s
      (position + 4 ≤ content.size) rejected fun word s' =>
        word.toNat = Layout.number content position 4 ∧
          s'.Reads content limits (position + 4) := by
  have hRecord := judges_record h short
  rw [Scan.Judges, leads_reading] at hRecord
  rw [Scan.Judges, leads_reading, Read.word32, Scan.leads_bind]
  refine hRecord.mono ?_ fun _ _ hStop => hStop
  rintro r s' ⟨inside, stored, h'⟩
  exact ⟨inside, stored.toNat_u32 _, h'⟩

theorem judges_reach (h : s.Reads content limits position)
    (past : ¬ offset ≤ content.size → rejected (.unreachable piece offset)) :
    Scan.Judges limits (reach piece offset) s (offset ≤ content.size) rejected fun _ s' =>
      s'.Reads content limits offset := by
  have hSize : s.reader.size = content.size := by rw [Reader.size_eq, h.content_eq]
  rw [Scan.Judges, reach, Scan.leads_mapError, Read.leads_seek, hSize]
  split
  case isTrue inside =>
    have inside' : (s.reader.moved offset s.reader.bytesRead).Inside :=
      ⟨Nat.le_trans inside (Nat.le_of_eq hSize.symm), h.inside.size_lt, h.inside.bytesRead_le⟩
    exact ⟨inside, h.content_eq, h.limits_eq, rfl, inside'⟩
  case isFalse outside => exact .inr ⟨_, rfl, outside, past outside⟩

theorem judges_stringAt {maxLength : Nat} (h : s.Reads content limits position)
    (outside : rejected (.truncated piece (.outOfBounds offset content.size))) :
    Scan.Judges limits (reading piece (Read.stringAt offset maxLength)) s
      (offset < content.size) rejected fun text s' =>
        text = Layout.text content offset maxLength ∧ s'.Reads content limits position := by
  have hSize : s.reader.size = content.size := by rw [Reader.size_eq, h.content_eq]
  rw [Scan.Judges, leads_reading]
  apply Read.leads_stringAt
  · intro hOutside
    rw [hSize] at hOutside ⊢
    exact .inr ⟨_, rfl, by omega, outside⟩
  · intro _ _ _
    exact .inl (Limits.hinders_refusal fun _ => rfl)
  · intro covered overflows _
    exact .inl (h.hinders_overflow covered (Nat.le_refl _) overflows)
  · intro inside covered log
    have hReads := h.moved covered (Nat.le_refl _) h.position_le log
    rw [hSize] at inside
    refine ⟨inside, ?_, ?_⟩
    · rw [Layout.text, Layout.bytes, ← h.bytesAt_eq]
      rfl
    · rw [Reader.charged, h.position_eq]
      exact hReads

end ImageScan

namespace Context

variable {ctx : Context} {content : ByteArray} {limits : Limits} {position : Nat} {s : Session}
  {rejected : ImageError → Prop} {piece : Piece} {rva : UInt32}

/-- The address is that of a place inside the file. -/
def Backs (ctx : Context) (content : ByteArray) (rva : Nat) : Prop :=
  ∃ place, ctx.placeOf? rva = some place ∧ place < content.size

/-- The text at an address, within the longest text that is looked at. -/
def textAt (ctx : Context) (content : ByteArray) (rva : Nat) : String :=
  Layout.text content ((ctx.placeOf? rva).getD 0) ctx.maxStringLength

theorem judges_requireRva (h : s.Reads content limits position)
    (unmapped : rejected (.unmappedAddress piece rva.toNat)) :
    Scan.Judges limits (ctx.requireRva piece rva) s
      (∃ place, ctx.placeOf? rva.toNat = some place) rejected fun place s' =>
        ctx.placeOf? rva.toNat = some place ∧ s'.Reads content limits position := by
  rw [requireRva]
  refine gives_translateRva.judges_bind fun log => ?_
  cases hPlace : ctx.placeOf? rva.toNat with
  | none => exact Scan.judges_fail (fun ⟨_, hSome⟩ => nomatch hSome) unmapped
  | some place => exact Scan.judges_pure ⟨place, rfl⟩ ⟨rfl, h.of_reader_eq rfl⟩

theorem backs_iff_of_placeOf {place rva : Nat} (hPlace : ctx.placeOf? rva = some place) :
    ctx.Backs content rva ↔ place < content.size := by
  simp only [Backs, hPlace, Option.some.injEq, exists_eq_left']

theorem judges_stringAtRva (h : s.Reads content limits position)
    (unmapped : rejected (.unmappedAddress piece rva.toNat))
    (outside : ∀ offset, rejected (.truncated piece (.outOfBounds offset content.size))) :
    Scan.Judges limits (ctx.stringAtRva piece rva) s (ctx.Backs content rva.toNat) rejected
      fun text s' => text = ctx.textAt content rva.toNat ∧
        s'.Reads content limits position := by
  refine (judges_requireRva h unmapped).bind (fun ⟨place, hPlace, _⟩ => ⟨place, hPlace⟩) ?_
  rintro offset s₁ - ⟨hOffset, h₁⟩
  rw [textAt, hOffset]
  exact (ImageScan.judges_stringAt h₁ (outside offset)).iff (backs_iff_of_placeOf hOffset).symm

end Context
end PortableExecutable
