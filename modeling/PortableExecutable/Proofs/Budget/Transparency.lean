import PortableExecutable.Proofs.Budget.Coupling
import PortableExecutable.Proofs.Coupling.Headers
import PortableExecutable.Proofs.Coupling.Tables

/-!
The headers, the section table and five of the directories are transparent to the read budget: a
run either does not notice the budget or fails because of it. Two of these stages take a piece that
the file cuts short for the end of a table. The budget never cuts a piece short, so it cannot be
mistaken for the end of the file.
-/

namespace PortableExecutable

open Coupling

/-- Every stage but the imports and the resources, with what it is given. -/
inductive Stage where
  | dosHeader
  | peHeader (dos : DosHeader)
  | optionalHeader (dos : DosHeader) (pe : PeHeader)
  | sectionTable (dos : DosHeader) (pe : PeHeader)
  | exports (ctx : Context)
  | debug (ctx : Context)
  | relocations (ctx : Context)
  | tls (ctx : Context)
  | certificates (ctx : Context)

namespace Stage

def Yield : Stage → Type
  | dosHeader => DosHeader
  | peHeader _ => PeHeader
  | optionalHeader _ _ => OptionalHeader × List DataDirectory
  | sectionTable _ _ => SectionTable
  | exports _ => Option ExportDirectory
  | debug _ => List DebugEntry
  | relocations _ => List RelocationBlock
  | tls _ => Option TlsDirectory
  | certificates _ => List Certificate

def read : (stage : Stage) → ImageScan stage.Yield
  | dosHeader => DosHeader.read
  | peHeader dos => PeHeader.read dos
  | optionalHeader dos pe => OptionalHeader.read dos pe
  | sectionTable dos pe => SectionTable.read dos pe
  | exports ctx => Export.read ctx
  | debug ctx => Debug.read ctx
  | relocations ctx => Relocation.read ctx
  | tls ctx => Tls.read ctx
  | certificates ctx => Certificate.read ctx

theorem respects_read {C : Coupling} (lawful : C.Lawful) (stage : Stage) :
    stage.read.Respects C := by
  cases stage with
  | dosHeader => exact DosHeader.respects_read lawful
  | peHeader dos => exact PeHeader.respects_read lawful
  | optionalHeader dos pe => exact OptionalHeader.respects_read lawful
  | sectionTable dos pe => exact SectionTable.respects_read lawful
  | exports ctx => exact Export.respects_read lawful
  | debug ctx => exact Debug.respects_read lawful
  | relocations ctx => exact Relocation.respects_read lawful
  | tls ctx => exact Tls.respects_read lawful
  | certificates ctx => exact Certificate.respects_read lawful

end Stage

/-- The first run is let off when it stops on a refusal, and for nothing else. -/
def Coupling.orRefused : Coupling :=
  betweenBudgets (fun _ => False) fun stop => ∃ e, stop = .error e ∧ e.IsRefusal

theorem Coupling.lawful_orRefused : orRefused.Lawful :=
  lawful_betweenBudgets (fun _ _ => .inl ⟨_, rfl, _, _, rfl⟩) (fun parted _ => parted)
    fun ⟨_, hStop, refusal⟩ => by cases hStop; exact refusal

/-- A header of a certificate is taken for cut only where the file ends inside it. -/
theorem Certificate.readHeader?_none {offset : Nat} {s s' : Session}
    (h : readHeader? offset s = .ok none s') : s.reader.size < offset + 8 := by
  have hLeads : (readHeader? offset).Leads s
      (fun header? _ => header? = none → s.reader.size < offset + 8) fun _ _ => True := by
    rw [readHeader?, Scan.leads_bind, Scan.leads_attempt]
    apply Read.leads_recordAt
    · exact fun _ _ => True.intro
    · exact fun _ _ _ => True.intro
    · intro _ short _ _
      rw [Reader.size_bytesAt] at short
      omega
    · intro _ _ _ isNone
      cases isNone
  exact Scan.Leads.ok hLeads h rfl

/-- A table of callbacks is taken for cut only where the file ends inside a callback. -/
theorem Tls.readPointer?_none {ctx : Context} {s s' : Session}
    (h : readPointer? ctx s = .ok none s') :
    s.reader.size < s.reader.position + ctx.headers.pointerWidth := by
  have hLeads : (readPointer? ctx).Leads s
      (fun callback? _ => callback? = none →
        s.reader.size < s.reader.position + ctx.headers.pointerWidth) fun _ _ => True := by
    rw [readPointer?]
    dsimp only
    rw [Scan.leads_bind, ImageScan.leads_io]
    apply Read.leads_chunk
    · exact fun _ _ => True.intro
    · exact fun _ _ _ => True.intro
    · intro _ _
      split
      · intro isNone
        cases isNone
      · intro _
        have short := ‹¬ _›
        rw [Reader.size_bytesAt] at short
        omega
  exact Scan.Leads.ok hLeads h rfl

namespace Stage

/-- What two budgets do to a stage: the same, or the smaller one makes it fail. What stages take
for the end of a table is the end of the file. -/
structure Transparent (stage : Stage) (s : Session) (small large : UInt64) : Prop where
  same_or_refused :
    stage.read.outcome (s.withBudget small) = stage.read.outcome (s.withBudget large) ∨
      ∃ e limit current,
        (stage.read.outcome (s.withBudget small)).result = .error (.error e) ∧
          e.cause? = some (.readLimitExceeded limit current)
  certificateCut : ∀ (offset : Nat) (s s' : Session),
    Certificate.readHeader? offset s = .ok none s' → s.reader.size < offset + 8
  callbackCut : ∀ (ctx : Context) (s s' : Session),
    Tls.readPointer? ctx s = .ok none s' →
      s.reader.size < s.reader.position + ctx.headers.pointerWidth

theorem read_transparent (stage : Stage) (s : Session) {small large : UInt64}
    (le : small ≤ large) : stage.Transparent s small large := by
  refine ⟨?_, fun _ _ _ => Certificate.readHeader?_none, fun _ _ _ => Tls.readPointer?_none⟩
  obtain same | ⟨stop, s', hRun, excuses⟩ | parted :=
    outcome_of_respects (s := s) (stage.respects_read lawful_orRefused) le
  case inl => exact .inl same
  case inr.inl =>
    obtain ⟨origin, hOrigin, _, rfl, limit, current, rfl⟩ := excuses
    rw [Scan.outcome_of_error hRun]
    cases stop with
    | error e =>
        cases hCause : e.cause? with
        | none => simp [Stop.origin?, Caused.cause?, hCause] at hOrigin
        | some cause =>
          simp only [Stop.origin?, Caused.cause?, hCause, Option.map_some, Option.some.injEq,
            Stop.error.injEq] at hOrigin
          exact .inr ⟨e, limit, current, rfl, hOrigin ▸ hCause⟩
    | fault f => cases hOrigin
  case inr.inr =>
    rw [Scan.Leads] at parted
    split at parted
    · exact parted.elim
    · exact parted.elim

/-- A record of thread-local storage whose table of callbacks starts two bytes before the end. -/
def cutCallbacks : Session where
  reader :=
    { label := "memory"
      content := ⟨#[0, 0, 0, 0, 0, 0, 0, 0, 0, 0, 0, 0, 22, 0, 0, 0, 0, 0, 0, 0, 0, 0, 0, 0]⟩
      limits := {} }

/-- A budget of 28 bytes covers the record and one callback more, and one byte less is refused. -/
theorem read_transparent_cutCallbacks :
    let stage := tls ⟨{}, {}⟩
    stage.Transparent cutCallbacks 27 28 ∧ stage.Transparent cutCallbacks 28 4096 ∧
      (stage.read.outcome (cutCallbacks.withBudget 27)).result =
        .error (.error (.io (.readLimitExceeded 27 24))) ∧
      stage.read.outcome (cutCallbacks.withBudget 28) =
        ⟨.ok (some ⟨0, 0, 0, 22, 0, 0, []⟩), 24, 26⟩ := by
  have refused : ((Tls.read ⟨{}, {}⟩).outcome (cutCallbacks.withBudget 27)).result =
      .error (.error (.io (.readLimitExceeded 27 24))) := by decide +kernel
  have delivered : (Tls.read ⟨{}, {}⟩).outcome (cutCallbacks.withBudget 28) =
      ⟨.ok (some ⟨0, 0, 0, 22, 0, 0, []⟩), 24, 26⟩ := by decide +kernel
  exact ⟨(tls _).read_transparent cutCallbacks (by decide),
    (tls _).read_transparent cutCallbacks (by decide), refused, delivered⟩

end Stage
end PortableExecutable
