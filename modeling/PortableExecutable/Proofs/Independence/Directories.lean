import PortableExecutable.Proofs.Independence.Loading
import PortableExecutable.Proofs.Independence.Switches

/-!
The seven directories do not depend on each other. Reading all of them comes to what loading each
one alone comes to, from a fresh reader on the same bytes, put together in their order; the first
one that fails alone is the one that ends the reading. A directory that is switched off counts as
absent and makes no difference to the others.
-/

namespace PortableExecutable

namespace DirectoryKind

theorem steady_directory (kind : DirectoryKind) : kind.directory.Steady := by
  -- all but the certificates are entered through their slot
  have slotted {slot : Nat} (ctx : Context) (size : Nat) :
      ∃ place?, ∀ s : Session, s.reader.size = size →
        (ctx.enterDirectory slot).Gives s place? (s.reader.at? place?) := by
    refine ⟨ctx.place? slot size, fun s hSize => ?_⟩
    rw [← hSize]
    exact Context.gives_enterDirectory
  cases kind with
  | imports =>
      exact ⟨slotted, fun lawful recovers _ => Import.respects_read lawful recovers⟩
  | exports => exact ⟨slotted, fun lawful _ _ => Export.respects_read lawful⟩
  | resources =>
      exact ⟨slotted, fun lawful recovers _ => Resource.respects_read lawful recovers⟩
  | debug => exact ⟨slotted, fun lawful _ _ => Debug.respects_read lawful⟩
  | relocations => exact ⟨slotted, fun lawful _ _ => Relocation.respects_read lawful⟩
  | tls => exact ⟨slotted, fun lawful _ _ => Tls.respects_read lawful⟩
  | certificates =>
      refine ⟨fun ctx size => ⟨Certificate.place? ctx size, fun s hSize => ?_⟩,
        fun lawful _ _ => Certificate.respects_read lawful⟩
      rw [← hSize]
      exact Certificate.gives_enter

end DirectoryKind

/-- A new reader on the same bytes, under the same limits. -/
def Reader.fresh (r : Reader) : Reader :=
  { label := r.label, content := r.content, limits := r.limits }

theorem Reader.ofBytes_fresh {r : Reader} (fits : r.size ≤ r.limits.maxFileSize.toNat) :
    Reader.ofBytes r.label r.content r.limits = .ok r.fresh :=
  if_neg (Nat.not_lt.mpr fits)

/-- What loading one directory alone comes to. -/
def DirectoryKind.alone (kind : DirectoryKind) (ctx : Context) (r : Reader) :
    Except (Stop ImageError) kind.Yield :=
  ((kind.directory.load ctx).outcome ⟨r.fresh, #[]⟩).result

/-- From every reader of the content whose budget refuses nothing the computation comes to one and
the same, unless the count of the reader leaves 64 bits. -/
def Scan.Settles {α : Type} (act : ImageScan α) (content : ByteArray)
    (result : Except (Stop ImageError) α) : Prop :=
  ∀ s : Session, s.reader.Unbounded content →
    act.Leads s (fun a s' => result = .ok a ∧ s'.reader.Unbounded content)
      fun stop _ => stop = .fault .overflow ∨ result = .error stop

namespace Scan

variable {α β : Type} {content : ByteArray}

theorem settles_pure {a : α} : (pure a : ImageScan α).Settles content (pure a) :=
  fun _ unbounded => ⟨rfl, unbounded⟩

theorem Settles.bind {act : ImageScan α} {next : α → ImageScan β}
    {result : Except (Stop ImageError) α} {rest : α → Except (Stop ImageError) β}
    (first : act.Settles content result) (others : ∀ a, (next a).Settles content (rest a)) :
    (act >>= next).Settles content (result >>= rest) := by
  intro s unbounded
  rw [leads_bind]
  apply Leads.mono (first s unbounded)
  · rintro a s' ⟨rfl, unbounded'⟩
    exact others a s' unbounded'
  · rintro stop s' (overflowed | rfl)
    · exact .inl overflowed
    · exact .inr rfl

end Scan

namespace DirectoryKind

variable {ctx : Context} {content : ByteArray}

theorem settles_load (kind : DirectoryKind) {r : Reader} (unbounded : r.Unbounded content) :
    (kind.directory.load ctx).Settles content (kind.alone ctx r) := by
  intro s unbounded₁
  have ahead : s.reader.Ahead content 0 (Session.mk r.fresh #[]).reader :=
    ⟨unbounded₁, ⟨unbounded.content_eq, unbounded.budget_eq⟩, Nat.zero_le _, Nat.zero_le _⟩
  have hMeets := kind.steady_directory.load_meets ctx ahead
  rw [alone, Scan.outcome, Scan.Leads]
  revert hMeets
  generalize kind.directory.load ctx s = o₁, kind.directory.load ctx ⟨r.fresh, #[]⟩ = o₂
  intro hMeets
  cases hMeets with
  | delivered a alike => exact ⟨rfl, alike.first⟩
  | stopped stop alike => exact .inr rfl
  | excused excuses =>
      obtain ⟨origin, hOrigin, rfl⟩ := excuses
      refine .inl ?_
      cases ‹Stop ImageError› with
      | error e => simp [Stop.origin?] at hOrigin
      | fault f => simpa [Stop.origin?] using hOrigin
  | partedDelivering parted => exact parted.elim
  | partedStopping parted => exact parted.elim

end DirectoryKind

section Except

variable {ε α β : Type} {x : Except ε α} {f : α → Except ε β}

theorem exists_of_bind_eq_ok {b : β} (h : (x >>= f) = .ok b) : ∃ a, x = .ok a ∧ f a = .ok b := by
  cases x with
  | ok a => exact ⟨a, rfl, h⟩
  | error e => cases h

/-- Why a computation stopped, if it did. -/
def failure? : Except ε α → Option ε
  | .ok _ => none
  | .error e => some e

theorem failure?_eq_some_iff {e : ε} : failure? x = some e ↔ x = .error e := by
  cases x with
  | ok a => simp [failure?]
  | error e' => simp [failure?]

/-- Where the rest stops for one reason, whatever it is given, the first reason counts. -/
theorem failure?_bind {others : Option ε} (h : ∀ a, failure? (f a) = others) :
    failure? (x >>= f) = match failure? x with
      | some e => some e
      | none => others := by
  cases x with
  | ok a => exact h a
  | error e => rfl

end Except

namespace Directories

/-- What is held for one kind. -/
def get (d : Directories) : (kind : DirectoryKind) → kind.Yield
  | .imports => d.imports
  | .exports => d.exports
  | .resources => d.resources
  | .debug => d.debug
  | .relocations => d.relocations
  | .tls => d.tls
  | .certificates => d.certificates

def result (ctx : Context) (s : Session) : Except (Stop ImageError) Directories :=
  ((read ctx).outcome s).result

/-- All directories, each one loaded alone. -/
def apart (ctx : Context) (r : Reader) : Except (Stop ImageError) Directories := do
  let imports ← DirectoryKind.imports.alone ctx r
  let exports ← DirectoryKind.exports.alone ctx r
  let resources ← DirectoryKind.resources.alone ctx r
  let debug ← DirectoryKind.debug.alone ctx r
  let relocations ← DirectoryKind.relocations.alone ctx r
  let tls ← DirectoryKind.tls.alone ctx r
  let certificates ← DirectoryKind.certificates.alone ctx r
  return { imports, exports, resources, debug, relocations, tls, certificates }

variable {ctx : Context} {r : Reader} {content : ByteArray}

theorem settles_read (ctx : Context) (unbounded : r.Unbounded content) :
    (read ctx).Settles content (apart ctx r) := by
  refine (DirectoryKind.settles_load .imports unbounded).bind fun _ => ?_
  refine (DirectoryKind.settles_load .exports unbounded).bind fun _ => ?_
  refine (DirectoryKind.settles_load .resources unbounded).bind fun _ => ?_
  refine (DirectoryKind.settles_load .debug unbounded).bind fun _ => ?_
  refine (DirectoryKind.settles_load .relocations unbounded).bind fun _ => ?_
  refine (DirectoryKind.settles_load .tls unbounded).bind fun _ => ?_
  refine (DirectoryKind.settles_load .certificates unbounded).bind fun _ => ?_
  exact Scan.settles_pure

theorem apart_eq_ok_iff {d : Directories} :
    apart ctx r = .ok d ↔ ∀ kind : DirectoryKind, kind.alone ctx r = .ok (d.get kind) := by
  constructor
  · intro h
    rw [apart] at h
    obtain ⟨imports, hImports, h⟩ := exists_of_bind_eq_ok h
    obtain ⟨exports, hExports, h⟩ := exists_of_bind_eq_ok h
    obtain ⟨resources, hResources, h⟩ := exists_of_bind_eq_ok h
    obtain ⟨debug, hDebug, h⟩ := exists_of_bind_eq_ok h
    obtain ⟨relocations, hRelocations, h⟩ := exists_of_bind_eq_ok h
    obtain ⟨tls, hTls, h⟩ := exists_of_bind_eq_ok h
    obtain ⟨certificates, hCertificates, h⟩ := exists_of_bind_eq_ok h
    cases h
    intro kind
    cases kind with
    | imports => exact hImports
    | exports => exact hExports
    | resources => exact hResources
    | debug => exact hDebug
    | relocations => exact hRelocations
    | tls => exact hTls
    | certificates => exact hCertificates
  · intro h
    rw [apart, h .imports, h .exports, h .resources, h .debug, h .relocations, h .tls,
      h .certificates]
    rfl

theorem failure?_apart : failure? (apart ctx r) =
    DirectoryKind.order.findSome? fun kind => failure? (kind.alone ctx r) := by
  refine failure?_bind fun _ => ?_
  refine failure?_bind fun _ => ?_
  refine failure?_bind fun _ => ?_
  refine failure?_bind fun _ => ?_
  refine failure?_bind fun _ => ?_
  refine failure?_bind fun _ => ?_
  exact failure?_bind fun _ => rfl

end Directories

/-- What is left of a directory's value: the value itself, if the directory is kept. -/
def DirectoryKind.cut (kind : DirectoryKind) (kept : DirectoryKind → Bool) (a : kind.Yield) :
    kind.Yield :=
  if kept kind then a else kind.directory.absent

def Directories.restricted (d : Directories) (kept : DirectoryKind → Bool) : Directories where
  imports := DirectoryKind.imports.cut kept d.imports
  exports := DirectoryKind.exports.cut kept d.exports
  resources := DirectoryKind.resources.cut kept d.resources
  debug := DirectoryKind.debug.cut kept d.debug
  relocations := DirectoryKind.relocations.cut kept d.relocations
  tls := DirectoryKind.tls.cut kept d.tls
  certificates := DirectoryKind.certificates.cut kept d.certificates

/-- Whenever the first computation delivers a value, the second one, with no more read than the
first, delivers what `f` makes of it, and still with no more read. -/
def Scan.Follows {α β : Type} (content : ByteArray) (act₁ : ImageScan α) (act₂ : ImageScan β)
    (f : α → β) : Prop :=
  ∀ (s₁ s₂ : Session) (a : α) (s₁' : Session), s₁.reader.Ahead content 0 s₂.reader →
    act₁ s₁ = .ok a s₁' →
      ∃ s₂', act₂ s₂ = .ok (f a) s₂' ∧ s₁'.reader.Ahead content 0 s₂'.reader

namespace Scan

variable {α β γ δ : Type} {content : ByteArray}

theorem follows_pure {a : α} {b : β} {f : α → β} (h : b = f a) :
    Follows content (pure a : ImageScan α) (pure b : ImageScan β) f := by
  intro s₁ s₂ a' s₁' ahead hPure
  cases hPure
  exact ⟨s₂, congrArg (EStateM.Result.ok · s₂) h, ahead⟩

theorem Follows.bind {act₁ : ImageScan α} {act₂ : ImageScan β} {f : α → β}
    {next₁ : α → ImageScan γ} {next₂ : β → ImageScan δ} {g : γ → δ}
    (first : Follows content act₁ act₂ f)
    (rest : ∀ a, Follows content (next₁ a) (next₂ (f a)) g) :
    Follows content (act₁ >>= next₁) (act₂ >>= next₂) g := by
  intro s₁ s₂ c s₁'' ahead hRun
  obtain ⟨a, s₁', hFirst, hRest⟩ := bind_eq_ok_iff.mp hRun
  obtain ⟨s₂', hFirst₂, ahead'⟩ := first s₁ s₂ a s₁' ahead hFirst
  obtain ⟨s₂'', hRest₂, ahead''⟩ := rest a s₁' s₂' c s₁'' ahead' hRest
  exact ⟨s₂'', (bind_of_ok hFirst₂).trans hRest₂, ahead''⟩

end Scan

namespace DirectoryKind

variable {ctx : Context} {content : ByteArray} {kept : DirectoryKind → Bool}

theorem follows_load (kind : DirectoryKind) :
    Scan.Follows content (kind.directory.load ctx)
      (kind.directory.load (ctx.restricted kept)) (kind.cut kept) := by
  intro s₁ s₂ a s₁' ahead hLoad
  rw [load_restricted, cut]
  cases kept kind with
  | true =>
      have hMeets := kind.steady_directory.load_meets ctx ahead
      rw [hLoad] at hMeets
      generalize hLoad₂ : kind.directory.load ctx s₂ = o₂ at hMeets
      cases hMeets with
      | delivered _ alike => exact ⟨_, hLoad₂, alike⟩
      | partedDelivering parted => exact parted.elim
  | false =>
      refine ⟨{ s₂ with log := s₂.log.push ⟨.directoryDisabled kind.directory.name, []⟩ }, rfl, ?_⟩
      -- beside itself the first run shows that it has not read less than before
      have itself : s₁.reader.Ahead content s₂.reader.bytesRead s₁.reader :=
        ⟨ahead.first, ahead.first, Nat.le_refl _, ahead.bytesRead_le⟩
      have hMeets := kind.steady_directory.load_meets ctx itself
      rw [hLoad] at hMeets
      cases hMeets with
      | delivered _ alike => exact ⟨alike.first, ahead.second, alike.least_le, Nat.zero_le _⟩
      | partedDelivering parted => exact parted.elim

theorem alone_restricted (kind : DirectoryKind) (kept : DirectoryKind → Bool) (r : Reader) :
    kind.alone (ctx.restricted kept) r =
      if kept kind then kind.alone ctx r else .ok kind.directory.absent := by
  rw [alone, load_restricted]
  cases kept kind with
  | true => rfl
  | false => rfl

end DirectoryKind

namespace Directories

variable {s : Session} {content : ByteArray}

theorem follows_read (ctx : Context) (kept : DirectoryKind → Bool) :
    Scan.Follows content (read ctx) (read (ctx.restricted kept)) (·.restricted kept) := by
  refine (DirectoryKind.follows_load .imports).bind fun _ => ?_
  refine (DirectoryKind.follows_load .exports).bind fun _ => ?_
  refine (DirectoryKind.follows_load .resources).bind fun _ => ?_
  refine (DirectoryKind.follows_load .debug).bind fun _ => ?_
  refine (DirectoryKind.follows_load .relocations).bind fun _ => ?_
  refine (DirectoryKind.follows_load .tls).bind fun _ => ?_
  refine (DirectoryKind.follows_load .certificates).bind fun _ => ?_
  exact Scan.follows_pure rfl

theorem result_eq_apart_or (ctx : Context) (unbounded : s.reader.Unbounded content) :
    result ctx s = apart ctx s.reader ∨ result ctx s = .error (.fault .overflow) := by
  have hSettles := settles_read ctx unbounded s unbounded
  rw [result, Scan.outcome]
  rw [Scan.Leads] at hSettles
  cases hRun : read ctx s with
  | ok d s' =>
      rw [hRun] at hSettles
      exact .inl hSettles.1.symm
  | error stop s' =>
      rw [hRun] at hSettles
      cases hSettles with
      | inl overflowed => exact .inr (congrArg Except.error overflowed)
      | inr hApart => exact .inl hApart.symm

theorem result_eq_apart {ctx : Context} (unbounded : s.reader.Unbounded content)
    (counted : ∀ s', read ctx s ≠ .error (.fault .overflow) s') :
    result ctx s = apart ctx s.reader := by
  refine (result_eq_apart_or ctx unbounded).resolve_right fun overflowed => ?_
  rw [result, Scan.outcome] at overflowed
  cases hRun : read ctx s with
  | ok d s' =>
      rw [hRun] at overflowed
      cases overflowed
  | error stop s' =>
      rw [hRun] at overflowed
      cases overflowed
      exact counted s' hRun

theorem result_restricted {ctx : Context} {kept : DirectoryKind → Bool} {d : Directories}
    (unbounded : s.reader.Unbounded content) (hResult : result ctx s = .ok d) :
    result (ctx.restricted kept) s = .ok (d.restricted kept) := by
  cases hRun : read ctx s with
  | ok d' s' =>
      rw [result, Scan.outcome_of_ok hRun] at hResult
      cases hResult
      have itself : s.reader.Ahead content 0 s.reader :=
        ⟨unbounded, unbounded, Nat.le_refl _, Nat.zero_le _⟩
      obtain ⟨s₂', hRun₂, _⟩ := follows_read ctx kept s s d s' itself hRun
      rw [result, Scan.outcome_of_ok hRun₂]
  | error stop s' =>
      rw [result, Scan.outcome_of_error hRun] at hResult
      cases hResult

theorem exists_kept_of_result_restricted {ctx : Context} {kept : DirectoryKind → Bool}
    {stop : Stop ImageError} (unbounded : s.reader.Unbounded content)
    (hResult : result (ctx.restricted kept) s = .error stop)
    (notOverflow : stop ≠ .fault .overflow) :
    ∃ kind : DirectoryKind, kept kind = true ∧ kind.alone ctx s.reader = .error stop := by
  have hStop : apart (ctx.restricted kept) s.reader = .error stop := by
    obtain same | overflowed := result_eq_apart_or (ctx.restricted kept) unbounded
    · rw [← same, hResult]
    · rw [overflowed] at hResult
      cases hResult
      exact absurd rfl notOverflow
  rw [← failure?_eq_some_iff, failure?_apart] at hStop
  obtain ⟨kind, _, hKind⟩ := List.exists_of_findSome?_eq_some hStop
  rw [failure?_eq_some_iff, kind.alone_restricted] at hKind
  split at hKind
  · exact ⟨kind, ‹_›, hKind⟩
  · cases hKind

/-- Reading all directories from a session compares with loading each one alone, and reading them
with some switched off compares with reading them all. -/
structure Independent (ctx : Context) (s : Session) : Prop where
  delivers_iff : ∀ d, result ctx s = .ok d ↔
    ∀ kind : DirectoryKind, kind.alone ctx s.reader = .ok (d.get kind)
  stops_iff : ∀ stop, result ctx s = .error stop ↔
    (DirectoryKind.order.findSome? fun kind => failure? (kind.alone ctx s.reader)) = some stop
  alone_restricted : ∀ (kept : DirectoryKind → Bool) (kind : DirectoryKind),
    kind.alone (ctx.restricted kept) s.reader =
      if kept kind then kind.alone ctx s.reader else .ok kind.directory.absent
  delivers_restricted : ∀ (kept : DirectoryKind → Bool) (d : Directories),
    result ctx s = .ok d → result (ctx.restricted kept) s = .ok (d.restricted kept)
  /-- An error that stays is an error of a directory that is kept, and was one before. -/
  stops_restricted : ∀ (kept : DirectoryKind → Bool) (stop : Stop ImageError),
    result (ctx.restricted kept) s = .error stop → stop ≠ .fault .overflow →
      (∃ kind : DirectoryKind, kept kind = true ∧ kind.alone ctx s.reader = .error stop) ∧
        ∃ stop', result ctx s = .error stop'

/-- With a budget that refuses nothing and a count that stays in 64 bits, wherever the reader
stands. -/
theorem read_independent (ctx : Context) (s : Session)
    (unbounded : s.reader.limits.maxReadBytes.toNat = 2 ^ 64 - 1)
    (counted : ∀ s', read ctx s ≠ .error (.fault .overflow) s') : Independent ctx s := by
  have hUnbounded : s.reader.Unbounded s.reader.content := ⟨rfl, unbounded⟩
  have hApart : result ctx s = apart ctx s.reader := result_eq_apart hUnbounded counted
  have delivers_iff (d : Directories) : result ctx s = .ok d ↔
      ∀ kind : DirectoryKind, kind.alone ctx s.reader = .ok (d.get kind) := by
    rw [hApart, apart_eq_ok_iff]
  refine ⟨delivers_iff, ?_, fun kept kind => kind.alone_restricted kept s.reader,
    fun kept d => result_restricted hUnbounded, ?_⟩
  · intro stop
    rw [hApart, ← failure?_eq_some_iff, failure?_apart]
  · intro kept stop hResult notOverflow
    obtain ⟨kind, hKept, hStop⟩ :=
      exists_kept_of_result_restricted hUnbounded hResult notOverflow
    refine ⟨⟨kind, hKept, hStop⟩, ?_⟩
    cases hAll : result ctx s with
    | ok d =>
        have hOk := (delivers_iff d).mp hAll kind
        rw [hStop] at hOk
        cases hOk
    | error stop' => exact ⟨stop', rfl⟩

/-- One function imported by its ordinal, and a debug directory that the file cuts short. The
reader stands at the end of the file. -/
def cutDebug : Session where
  reader :=
    { label := "memory"
      content := ⟨#[0, 0, 0, 0,
        44, 0, 0, 0, 0, 0, 0, 0, 0, 0, 0, 0, 52, 0, 0, 0, 0, 0, 0, 0,
        0, 0, 0, 0, 0, 0, 0, 0, 0, 0, 0, 0, 0, 0, 0, 0, 0, 0, 0, 0,
        7, 0, 0, 0x80, 0, 0, 0, 0, 97, 0]⟩
      limits := ⟨4096, 0xFFFFFFFFFFFFFFFF⟩
      position := 54
      bytesRead := 9 }

def cutDebugContext : Context where
  headers := { directories := [{}, ⟨4, 40⟩, {}, {}, {}, {}, ⟨50, 28⟩] }
  options := {}

theorem read_independent_cutDebug :
    cutDebug.reader.limits.maxReadBytes.toNat = 2 ^ 64 - 1 ∧
      (∀ s', read cutDebugContext cutDebug ≠ .error (.fault .overflow) s') ∧
      Reader.ofBytes cutDebug.reader.label cutDebug.reader.content cutDebug.reader.limits =
        .ok cutDebug.reader.fresh ∧
      Independent cutDebugContext cutDebug ∧
      failure? (result cutDebugContext cutDebug) =
        some (.error (.truncated .debugEntry (.shortRead 50 28 4))) ∧
      ((result (cutDebugContext.restricted (· ≠ .debug)) cutDebug).toOption.map
        fun d => d.imports.entries.map (·.ordinal)) = some [some 7] := by
  have hFailure : failure? (result cutDebugContext cutDebug) =
      some (.error (.truncated .debugEntry (.shortRead 50 28 4))) := by decide +kernel
  have unbounded : cutDebug.reader.limits.maxReadBytes.toNat = 2 ^ 64 - 1 := by decide
  have counted : ∀ s', read cutDebugContext cutDebug ≠ .error (.fault .overflow) s' := by
    intro s' hRun
    rw [result, Scan.outcome_of_error hRun] at hFailure
    cases hFailure
  exact ⟨unbounded, counted, Reader.ofBytes_fresh (by decide),
    read_independent cutDebugContext cutDebug unbounded counted, hFailure, by decide +kernel⟩

end Directories
end PortableExecutable
