import PortableExecutable.Proofs.Headers.Stages

/-!
Which files have headers that can be read. From a fresh reader whose budget stops nothing, reading
succeeds on exactly the files that hold all headers, delivers what the file says, and otherwise
stops with the first failure of the layout.
-/

namespace PortableExecutable
namespace Headers

/-- No read of the headers is refused by the budget. -/
def Unrefused (s : Session) : Prop :=
  ∀ piece limit used s',
    read s ≠ .error (.error (.truncated piece (.readLimitExceeded limit used))) s'

/-- Reading the headers follows the layout of the file. -/
structure FollowsLayout (content : ByteArray) (s : Session) : Prop where
  succeeds_iff : (∃ h s', read s = .ok h s') ↔ Layout.HasHeaders content
  delivers : ∀ h s', read s = .ok h s' → h.StoredIn content
  fails : ∀ stop s', read s = .error stop s' →
    ∃ e, Layout.failure? content = some e ∧ stop = .error e

theorem stands_ofBytes {label : String} {content : ByteArray} {limits : Limits} {r : Reader}
    (made : Reader.ofBytes label content limits = .ok r) (log : Array LogEntry) :
    Session.Stands content limits 0 0 ⟨r, log⟩ := by
  rw [Reader.ofBytes] at made
  by_cases large : content.size > limits.maxFileSize.toNat
  · rw [if_pos large] at made
    cases made
  · rw [if_neg large] at made
    cases made
    have hLimit := limits.maxFileSize.toNat_lt
    exact ⟨rfl, rfl, rfl, Nat.zero_le _, Nat.le_refl _, by omega⟩

variable {label : String} {content : ByteArray} {limits : Limits} {r : Reader}

/-- A budget for the largest headers stops no smaller ones. -/
theorem unrefused_of_largestCost_le (log : Array LogEntry)
    (made : Reader.ofBytes label content limits = .ok r)
    (budgeted : largestCost ≤ limits.maxReadBytes.toNat) : Unrefused ⟨r, log⟩ := by
  intro piece limit used s' hRun
  cases Scan.Leads.error (decides_read (stands_ofBytes made log)) hRun with
  | inl refused => exact absurd refused.1 (Nat.not_lt.mpr budgeted)
  | inr failed =>
      obtain ⟨e, hFailure, hStop⟩ := failed
      cases hStop
      exact Layout.budgetless_failure? piece limit used hFailure

/-- With a budget that stops nothing, only the layout can. -/
theorem failure_of_read_error {log : Array LogEntry} {stop : Stop ImageError} {s' : Session}
    (made : Reader.ofBytes label content limits = .ok r) (unrefused : Unrefused ⟨r, log⟩)
    (hRun : read ⟨r, log⟩ = .error stop s') :
    ∃ e, Layout.failure? content = some e ∧ stop = .error e := by
  cases Scan.Leads.error (decides_read (stands_ofBytes made log)) hRun with
  | inl refused =>
      obtain ⟨_, piece, used, rfl⟩ := refused
      exact absurd hRun (unrefused piece _ used s')
  | inr failed => exact failed

theorem exists_read_of_hasHeaders {log : Array LogEntry}
    (made : Reader.ofBytes label content limits = .ok r) (unrefused : Unrefused ⟨r, log⟩)
    (has : Layout.HasHeaders content) : ∃ h s', read ⟨r, log⟩ = .ok h s' := by
  cases hRun : read ⟨r, log⟩ with
  | ok h s' => exact ⟨h, s', rfl⟩
  | error stop s' =>
      obtain ⟨e, hSome, _⟩ := failure_of_read_error made unrefused hRun
      rw [Layout.failure?_eq_none_iff.mpr has] at hSome
      cases hSome

theorem read_follows_layout (log : Array LogEntry)
    (made : Reader.ofBytes label content limits = .ok r) (unrefused : Unrefused ⟨r, log⟩) :
    FollowsLayout content ⟨r, log⟩ := by
  have hDecides : Decides limits read ⟨r, log⟩ (Layout.failure? content) fun h _ =>
      h.StoredIn content := decides_read (stands_ofBytes made log)
  refine ⟨⟨?_, exists_read_of_hasHeaders made unrefused⟩, ?_, ?_⟩
  · intro succeeded
    obtain ⟨h, s', hRun⟩ := succeeded
    exact Layout.failure?_eq_none_iff.mp (hDecides.ok hRun).1
  · intro h s' hRun
    exact (hDecides.ok hRun).2
  · intro stop s' hRun
    exact failure_of_read_error made unrefused hRun

/-- A 64-bit image of 188 bytes with one directory and one section. Its PE header is inside the DOS
header, so that the word at 60 is at once the place of the one and a section alignment. -/
def compact : ByteArray :=
  ⟨#[0x4D, 0x5A, 0, 0, 0x50, 0x45, 0, 0, 0x64, 0x86, 1, 0] ++ Array.replicate 12 0 ++
    #[120, 0, 0x22, 0, 0x0B, 0x02] ++ Array.replicate 30 0 ++ #[4, 0, 0, 0] ++
    Array.replicate 32 0 ++ #[3, 0] ++ Array.replicate 38 0 ++
    #[1, 0, 0, 0, 0, 0x10, 0, 0, 0x28, 0, 0, 0] ++
    #[0x2E, 0x74, 0x65, 0x78, 0x74, 0, 0, 0, 0, 0x10, 0, 0, 0, 0x10, 0, 0, 0, 2, 0, 0, 0, 2, 0, 0]
    ++ Array.replicate 16 0⟩

/-- The reader of the image alone, with the limits just large enough. -/
def compactReader : Reader := ⟨"memory", compact, ⟨188, 2621728⟩, 0, 0⟩

theorem ofBytes_compact :
    Reader.ofBytes "memory" compact ⟨188, 2621728⟩ = .ok compactReader :=
  if_neg (by decide +kernel)

theorem unrefused_compact : Unrefused ⟨compactReader, #[]⟩ :=
  unrefused_of_largestCost_le #[] ofBytes_compact (by decide)

theorem hasHeaders_compact : Layout.HasHeaders compact := by
  decide +kernel

theorem read_follows_layout_compact :
    Reader.ofBytes "memory" compact ⟨188, 2621728⟩ = .ok compactReader ∧
      Unrefused ⟨compactReader, #[]⟩ ∧ FollowsLayout compact ⟨compactReader, #[]⟩ ∧
        Layout.HasHeaders compact :=
  ⟨ofBytes_compact, unrefused_compact,
    read_follows_layout #[] ofBytes_compact unrefused_compact, hasHeaders_compact⟩

end Headers
end PortableExecutable
