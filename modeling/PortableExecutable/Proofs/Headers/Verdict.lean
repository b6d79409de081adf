import PortableExecutable.Proofs.Headers.Layout
import PortableExecutable.Proofs.Outcome
import PortableExecutable.Proofs.Reader.Steps

/-!
Reads that follow a file's verdict. `Decides` says of a computation that it fails exactly as a
failure computed from the file alone demands, unless the read budget stops it first; a sequence
then fails as the first of its steps to fail. The budget is spoken of only through an upper bound
on what was spent, which stays far below 64 bits here, so that no sum is out of range.
-/

namespace PortableExecutable

/-- The session's reader stands at a place of the file and has spent no more than a given part of
its budget. -/
structure Session.Stands (content : ByteArray) (limits : Limits) (offset spent : Nat)
    (s : Session) : Prop where
  content_eq : s.reader.content = content
  limits_eq : s.reader.limits = limits
  position_eq : s.reader.position = offset
  inside : offset ≤ content.size
  bytesRead_le : s.reader.bytesRead ≤ spent
  size_lt : content.size < 2 ^ 64

namespace Session.Stands

variable {content : ByteArray} {limits : Limits} {offset spent : Nat} {s s' : Session}

theorem of_reader_eq (h : s.Stands content limits offset spent) (hReader : s'.reader = s.reader) :
    s'.Stands content limits offset spent := by
  obtain ⟨hContent, hLimits, hPosition, inside, hSpent, hSize⟩ := h
  rw [← hReader] at hContent hLimits hPosition hSpent
  exact ⟨hContent, hLimits, hPosition, inside, hSpent, hSize⟩

theorem weaken {spent' : Nat} (h : s.Stands content limits offset spent) (hSpent : spent ≤ spent') :
    s.Stands content limits offset spent' :=
  ⟨h.content_eq, h.limits_eq, h.position_eq, h.inside, Nat.le_trans h.bytesRead_le hSpent,
    h.size_lt⟩

theorem size_eq (h : s.Stands content limits offset spent) : s.reader.size = content.size := by
  rw [Reader.size_eq, h.content_eq]

end Session.Stands

namespace Headers

/-- No headers need more of the budget than these: the DOS and the PE header, the longer optional
header with sixteen directories, and as many sections as can be declared. -/
def largestCost : Nat := 64 + 24 + 112 + 8 * 16 + 40 * 65535

/-- The stop of a read that a small budget does not cover. -/
def Refused (limits : Limits) (stop : Stop ImageError) : Prop :=
  limits.maxReadBytes.toNat < largestCost ∧
    ∃ piece used,
      stop = .error (.truncated piece (.readLimitExceeded limits.maxReadBytes.toNat used))

/-- The computation fails as `failure?` says or is refused by the budget. -/
def Decides {α : Type} (limits : Limits) (act : ImageScan α) (s : Session)
    (failure? : Option ImageError) (post : α → Session → Prop) : Prop :=
  act.Leads s (fun a s' => failure? = none ∧ post a s')
    (fun stop _ => Refused limits stop ∨ ∃ e, failure? = some e ∧ stop = .error e)

section Rules

variable {α β : Type} {content : ByteArray} {limits : Limits} {offset spent : Nat} {s : Session}

theorem Decides.mono {act : ImageScan α} {failure? : Option ImageError}
    {post post' : α → Session → Prop} (h : Decides limits act s failure? post)
    (hPost : ∀ a s', failure? = none → post a s' → post' a s') :
    Decides limits act s failure? post' :=
  Scan.Leads.mono h (fun a s' hDone => ⟨hDone.1, hPost a s' hDone.1 hDone.2⟩)
    fun _ _ hStop => hStop

theorem Decides.bind {act : ImageScan α} {next : α → ImageScan β}
    {failure? failure?' : Option ImageError} {mid : α → Session → Prop}
    {post : β → Session → Prop} (first : Decides limits act s failure? mid)
    (rest : ∀ a s', failure? = none → mid a s' → Decides limits (next a) s' failure?' post) :
    Decides limits (act >>= next) s (failure?.or failure?') post := by
  rw [Decides, Scan.leads_bind]
  apply Scan.Leads.mono first
  · intro a s' hDone
    have hRest := rest a s' hDone.1 hDone.2
    rw [hDone.1, Option.none_or]
    exact hRest
  · intro stop s' hStop
    cases hStop with
    | inl refused => exact .inl refused
    | inr failed =>
        obtain ⟨e, hFailure, hError⟩ := failed
        exact .inr ⟨e, by rw [hFailure, Option.some_or], hError⟩

/-- A first step that does not fail leaves the failure to the rest. -/
theorem Decides.bind_none {act : ImageScan α} {next : α → ImageScan β}
    {failure? : Option ImageError} {mid : α → Session → Prop} {post : β → Session → Prop}
    (first : Decides limits act s none mid)
    (rest : ∀ a s', mid a s' → Decides limits (next a) s' failure? post) :
    Decides limits (act >>= next) s failure? post :=
  first.bind fun a s' _ => rest a s'

theorem decides_pure {a : α} {post : α → Session → Prop} (h : post a s) :
    Decides limits (pure a) s none post :=
  ⟨rfl, h⟩

theorem decides_fail {e : ImageError} {post : α → Session → Prop} :
    Decides limits (Scan.fail e) s (some e) post :=
  .inr ⟨e, rfl, rfl⟩

/-- What is made of a last value cannot fail. -/
theorem Decides.bind_pure {act : ImageScan α} {f : α → β} {failure? : Option ImageError}
    {mid : α → Session → Prop} {post : β → Session → Prop}
    (h : Decides limits act s failure? mid)
    (hPost : ∀ a s', failure? = none → mid a s' → post (f a) s') :
    Decides limits (act >>= fun a => pure (f a)) s failure? post := by
  rw [← Option.or_none (o := failure?)]
  exact h.bind fun a s' hNone hMid => decides_pure (hPost a s' hNone hMid)

/-- A branch of the computation goes with a branch of the failure. -/
theorem decides_ite {c c' : Prop} [Decidable c] [Decidable c'] {act act' : ImageScan α}
    {failure? failure?' : Option ImageError} {post : α → Session → Prop} (same : c ↔ c')
    (holds : c' → Decides limits act s failure? post)
    (fails : ¬ c' → Decides limits act' s failure?' post) :
    Decides limits (if c then act else act') s (if c' then failure? else failure?') post := by
  by_cases h : c'
  · rw [if_pos (same.mpr h), if_pos h]
    exact holds h
  · rw [if_neg (fun hc => h (same.mp hc)), if_neg h]
    exact fails h

theorem decides_emit {event : Event} (h : s.Stands content limits offset spent) :
    Decides limits (Scan.emit event) s none fun _ s' => s'.Stands content limits offset spent :=
  ⟨rfl, h.of_reader_eq rfl⟩

theorem decides_reader (h : s.Stands content limits offset spent) :
    Decides limits Scan.reader s none fun r s' =>
      r.size = content.size ∧ r.position = offset ∧ s'.Stands content limits offset spent :=
  ⟨rfl, h.size_eq, h.position_eq, h⟩

theorem decides_difference {a b : Nat} (h : s.Stands content limits offset spent)
    (hOrder : b ≤ a) :
    Decides limits (Scan.difference a b) s none fun _ s' =>
      s'.Stands content limits offset spent := by
  rw [Decides, Scan.leads_difference, if_pos hOrder]
  exact ⟨rfl, h⟩

theorem decides_reach {piece : Piece} {target : Nat} (h : s.Stands content limits offset spent) :
    Decides limits (ImageScan.reach piece target) s (Layout.reach? content piece target)
      fun _ s' => s'.Stands content limits target spent := by
  rw [Decides, ImageScan.reach, Scan.leads_mapError, Read.leads_seek, h.size_eq, Layout.reach?]
  by_cases inside : target ≤ content.size
  · rw [if_pos inside, if_pos inside]
    exact ⟨rfl, h.content_eq, h.limits_eq, rfl, inside, h.bytesRead_le, h.size_lt⟩
  · rw [if_neg inside, if_neg inside]
    exact .inr ⟨_, rfl, rfl⟩

theorem decides_seek_start (h : s.Stands content limits offset spent) :
    Decides limits (ImageScan.io (Read.seek 0)) s none
      fun _ s' => s'.Stands content limits 0 spent := by
  rw [Decides, ImageScan.leads_io, Read.leads_seek, if_pos (Nat.zero_le _)]
  exact ⟨rfl, h.content_eq, h.limits_eq, rfl, Nat.zero_le _, h.bytesRead_le, h.size_lt⟩

theorem decides_record {piece : Piece} {length : Nat}
    (h : s.Stands content limits offset spent) (cost : spent + length ≤ largestCost) :
    Decides limits (ImageScan.reading piece (Read.record length)) s
      (Layout.cut? content piece offset length)
      fun r s' => r.StoredAt content offset ∧
        s'.Stands content limits (offset + length) (spent + length) := by
  have hSpent := h.bytesRead_le
  have hSize := h.size_lt
  have inside := h.inside
  have hLargest : largestCost < 2 ^ 64 - 1 := by decide
  have hBytes : s.reader.bytesAt s.reader.position length =
      content.extract offset (offset + length) := by
    rw [Reader.bytesAt, h.content_eq, h.position_eq]
  have hDelivered : (s.reader.bytesAt s.reader.position length).size =
      min (offset + length) content.size - offset := by
    rw [hBytes, ByteArray.size_extract]
  rw [Decides, ImageScan.leads_reading]
  apply Read.leads_record
  · intro uncovered log
    refine .inl ⟨?_, piece, s.reader.bytesRead, ?_⟩
    · rw [Reader.Affords, Limits.allows, decide_eq_true_eq, h.limits_eq] at uncovered
      omega
    · rw [Reader.refusal, h.limits_eq]
      rfl
  · intro _ hSum
    rw [hDelivered, h.position_eq] at hSum
    omega
  · intro _ short log
    rw [hDelivered] at short
    have hCut : ¬ offset + length ≤ content.size := by omega
    refine .inr ⟨_, if_neg hCut, ?_⟩
    rw [hDelivered, h.position_eq, Nat.min_eq_right (by omega)]
    rfl
  · intro _ whole log
    have hWhole : offset + length ≤ content.size := by
      rw [hDelivered] at whole
      omega
    refine ⟨if_pos hWhole, hBytes, ⟨h.content_eq, h.limits_eq, ?_, hWhole, ?_, hSize⟩⟩
    · rw [← h.position_eq]
      rfl
    · exact Nat.add_le_add_right hSpent length

/-- A record that the file is known to have. -/
theorem decides_record_of_le {piece : Piece} {length : Nat}
    (h : s.Stands content limits offset spent) (cost : spent + length ≤ largestCost)
    (whole : offset + length ≤ content.size) :
    Decides limits (ImageScan.reading piece (Read.record length)) s none
      fun r s' => r.StoredAt content offset ∧
        s'.Stands content limits (offset + length) (spent + length) := by
  have hRecord : Decides limits (ImageScan.reading piece (Read.record length)) s
      (Layout.cut? content piece offset length) _ := decides_record h cost
  rwa [Layout.cut?_eq_none_iff.mpr whole] at hRecord

theorem decides_word64 {piece : Piece} (h : s.Stands content limits offset spent)
    (cost : spent + 8 ≤ largestCost) :
    Decides limits (ImageScan.reading piece Read.word64) s (Layout.cut? content piece offset 8)
      fun word s' => (∃ r : Record 8, r.StoredAt content offset ∧ word = r.u64 0) ∧
        s'.Stands content limits (offset + 8) (spent + 8) := by
  have hRecord : Decides limits (ImageScan.reading piece (Read.record 8)) s _ _ :=
    decides_record h cost
  rw [Decides, ImageScan.leads_reading] at hRecord ⊢
  rw [Read.word64, Scan.leads_bind]
  apply Scan.Leads.mono hRecord
  · intro r s' hDone
    exact ⟨hDone.1, ⟨r, hDone.2.1, rfl⟩, hDone.2.2⟩
  · exact fun _ _ hStop => hStop

end Rules
end Headers
end PortableExecutable
