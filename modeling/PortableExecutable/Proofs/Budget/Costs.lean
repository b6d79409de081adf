import PortableExecutable.Proofs.Budget.Unrefused

/-!
What a computation costs at most. `Costs` promises that no read is refused as long as so many bytes
of the budget are left, and that no more than these are spent; the costs of steps that follow each
other add up. This is what makes a budget one that refuses nothing: where it covers the costs, the
run is not hindered, and its log is silent about refusals.
-/

namespace PortableExecutable

/-- The budget has so many bytes left. -/
def Reader.HasLeft (r : Reader) (n : Nat) : Prop := r.bytesRead + n ≤ r.limits.maxReadBytes.toNat

instance (r : Reader) (n : Nat) : Decidable (r.HasLeft n) := inferInstanceAs (Decidable (_ ≤ _))

theorem Reader.HasLeft.affords {r : Reader} {n : Nat} (left : r.HasLeft n) : r.Affords n := by
  rw [Affords, Limits.allows, decide_eq_true_eq]
  exact Nat.le_trans (Nat.min_le_left _ _) left

/-- A later session on the same file that has spent no more than so many bytes of the budget. It
shows no refusal that was not shown before. -/
structure Session.Spends (s : Session) (n : Nat) (s' : Session) : Prop where
  content_eq : s'.reader.content = s.reader.content
  limits_eq : s'.reader.limits = s.reader.limits
  bytesRead_le : s'.reader.bytesRead ≤ s.reader.bytesRead + n
  quiet : ShowsRefusal s'.log → ShowsRefusal s.log

namespace Session.Spends

variable {s s' s'' : Session} {m n : Nat}

theorem of_reader_eq (hReader : s'.reader = s.reader) (hLog : s'.log = s.log) : s.Spends n s' :=
  ⟨congrArg Reader.content hReader, congrArg Reader.limits hReader,
    Nat.le_trans (Nat.le_of_eq (congrArg Reader.bytesRead hReader)) (Nat.le_add_right _ _),
    fun shows => hLog ▸ shows⟩

theorem refl (s : Session) (n : Nat) : s.Spends n s := .of_reader_eq rfl rfl

theorem trans (h : s.Spends m s') (h' : s'.Spends n s'') : s.Spends (m + n) s'' := by
  refine ⟨h'.content_eq.trans h.content_eq, h'.limits_eq.trans h.limits_eq, ?_,
    fun shows => h.quiet (h'.quiet shows)⟩
  have hFirst := h.bytesRead_le
  have hSecond := h'.bytesRead_le
  omega

theorem le (h : s.Spends m s') (hLe : m ≤ n) : s.Spends n s' :=
  ⟨h.content_eq, h.limits_eq, Nat.le_trans h.bytesRead_le (Nat.add_le_add_left hLe _), h.quiet⟩

theorem size_eq (h : s.Spends n s') : s'.reader.size = s.reader.size := by
  rw [Reader.size_eq, Reader.size_eq, h.content_eq]

/-- What is spent of a budget is gone, and the rest of it is left. -/
theorem hasLeft (h : s.Spends m s') (left : s.reader.HasLeft (m + n)) : s'.reader.HasLeft n := by
  have hSpent := h.bytesRead_le
  rw [Reader.HasLeft] at left ⊢
  rw [h.limits_eq]
  omega

end Session.Spends

theorem not_showsRefusal_push {log : Array LogEntry} {event : Event} {spans : List Span}
    (silent : event.isRefusal = false) (shows : ShowsRefusal (log.push ⟨event, spans⟩)) :
    ShowsRefusal log := by
  rw [ShowsRefusal, Array.any_push, Bool.or_eq_true] at shows
  exact shows.resolve_right (by simp [silent])

namespace Scan

variable {ε ε' α β : Type} {refuses : ε → Prop} {refuses' : ε' → Prop} {m n : Nat} {s : Session}
  {post : α → Session → Prop}

/-- If so many bytes are left, nothing more is spent and no error is that of a refused read. -/
def Costs (refuses : ε → Prop) (n : Nat) (act : Scan ε α) (s : Session)
    (post : α → Session → Prop) : Prop :=
  s.reader.HasLeft n → act.Leads s (fun a s' => s.Spends n s' ∧ post a s')
    fun stop s' => s.Spends n s' ∧ ∀ e, stop = .error e → ¬ refuses e

theorem Costs.mono {act : Scan ε α} {post' : α → Session → Prop} (h : Costs refuses n act s post)
    (hPost : ∀ a s', s.Spends n s' → post a s' → post' a s') : Costs refuses n act s post' :=
  fun left => (h left).mono (fun a s' hDone => ⟨hDone.1, hPost a s' hDone.1 hDone.2⟩)
    fun _ _ hStop => hStop

theorem Costs.le {act : Scan ε α} (h : Costs refuses m act s post) (hLe : m ≤ n) :
    Costs refuses n act s post := by
  intro left
  have hLeft : s.reader.HasLeft m := Nat.le_trans (Nat.add_le_add_left hLe _) left
  exact (h hLeft).mono (fun a s' hDone => ⟨hDone.1.le hLe, hDone.2⟩)
    fun _ _ hStop => ⟨hStop.1.le hLe, hStop.2⟩

/-- The costs of two steps add up. -/
theorem Costs.bind {act : Scan ε α} {next : α → Scan ε β} {mid : α → Session → Prop}
    {post : β → Session → Prop} (first : Costs refuses m act s mid)
    (rest : ∀ a s', s.Spends m s' → mid a s' → Costs refuses n (next a) s' post) :
    Costs refuses (m + n) (act >>= next) s post := by
  intro left
  have hLeft : s.reader.HasLeft m :=
    Nat.le_trans (Nat.add_le_add_left (Nat.le_add_right m n) _) left
  rw [leads_bind]
  refine (first hLeft).mono ?_ fun _ _ hStop => ⟨hStop.1.le (Nat.le_add_right m n), hStop.2⟩
  intro a s₁ hDone
  refine (rest a s₁ hDone.1 hDone.2 (hDone.1.hasLeft left)).mono ?_ ?_
  · exact fun b s₂ hDone' => ⟨hDone.1.trans hDone'.1, hDone'.2⟩
  · exact fun stop s₂ hStop => ⟨hDone.1.trans hStop.1, hStop.2⟩

/-- A step that reads nothing may come first. -/
theorem Costs.free_bind {act : Scan ε α} {next : α → Scan ε β} {mid : α → Session → Prop}
    {post : β → Session → Prop} (first : Costs refuses 0 act s mid)
    (rest : ∀ a s', s.Spends 0 s' → mid a s' → Costs refuses n (next a) s' post) :
    Costs refuses n (act >>= next) s post :=
  (first.bind rest).le (Nat.le_of_eq (Nat.zero_add n))

/-- What the first step leaves of the costs of both may depend on how it ends. -/
theorem Costs.bind_rest {act : Scan ε α} {next : α → Scan ε β} {mid : α → Session → Prop}
    {post : β → Session → Prop} (first : Costs refuses n act s mid)
    (rest : ∀ a s', s.Spends n s' → mid a s' → ∃ k,
      s'.reader.bytesRead + k ≤ s.reader.bytesRead + n ∧ Costs refuses k (next a) s' post) :
    Costs refuses n (act >>= next) s post := by
  intro left
  rw [leads_bind]
  refine (first left).mono ?_ fun _ _ hStop => hStop
  intro a s₁ hDone
  obtain ⟨k, hRest, hNext⟩ := rest a s₁ hDone.1 hDone.2
  have within {s₂ : Session} (h : s₁.Spends k s₂) : s.Spends n s₂ :=
    ⟨h.content_eq.trans hDone.1.content_eq, h.limits_eq.trans hDone.1.limits_eq,
      Nat.le_trans h.bytesRead_le hRest, fun shows => hDone.1.quiet (h.quiet shows)⟩
  have hLeft : s₁.reader.HasLeft k := by
    rw [Reader.HasLeft] at left ⊢
    rw [hDone.1.limits_eq]
    exact Nat.le_trans hRest left
  refine (hNext hLeft).mono ?_ ?_
  · exact fun b s₂ hDone' => ⟨within hDone'.1, hDone'.2⟩
  · exact fun stop s₂ hStop => ⟨within hStop.1, hStop.2⟩

theorem Costs.map {act : Scan ε α} {f : α → β} {post : β → Session → Prop}
    (h : Costs refuses n act s fun a s' => post (f a) s') : Costs refuses n (f <$> act) s post := by
  intro left
  rw [leads_map]
  exact h left

theorem costs_pure {a : α} (hPost : post a s) : Costs refuses n (pure a : Scan ε α) s post :=
  fun _ => ⟨.refl s n, hPost⟩

theorem costs_fail {e : ε} (accepted : ¬ refuses e) :
    Costs refuses n (fail e : Scan ε α) s post := by
  refine fun _ => ⟨.refl s n, ?_⟩
  rintro _ ⟨⟩
  exact accepted

theorem accepts_fault {f : Fault} (e : ε) (hStop : Stop.fault f = .error e) : ¬ refuses e := by
  cases hStop

theorem costs_fault {f : Fault} : Costs refuses n (fault f : Scan ε α) s post :=
  fun _ => ⟨.refl s n, accepts_fault⟩

theorem costs_emit_bind {event : Event} {next : Unit → Scan ε α} (silent : event.isRefusal = false)
    (rest : ∀ s', s'.reader = s.reader → Costs refuses n (next ()) s' post) :
    Costs refuses n (emit event >>= next) s post := by
  have emitted : Costs refuses 0 (emit event : Scan ε Unit) s fun _ s' => s'.reader = s.reader :=
    fun _ => ⟨⟨rfl, rfl, Nat.le_refl _, not_showsRefusal_push silent⟩, rfl⟩
  exact emitted.free_bind fun _ s' _ hReader => rest s' hReader

theorem costs_reader_bind {next : Reader → Scan ε α}
    (rest : Costs refuses n (next s.reader) s post) :
    Costs refuses n (reader >>= next) s post := by
  intro left
  rw [leads_bind]
  exact rest left

theorem costs_sum_bind {a b : Nat} {next : Nat → Scan ε α}
    (rest : Costs refuses n (next (a + b)) s post) :
    Costs refuses n (sum a b >>= next) s post := by
  by_cases hSum : a + b < 2 ^ 64
  · rwa [sum_of_lt hSum, pure_bind]
  · intro _
    rw [leads_bind, leads_sum, if_neg hSum]
    exact ⟨.refl s n, accepts_fault⟩

theorem Costs.mapError {act : Scan ε' α} {f : ε' → ε} (h : Costs refuses' n act s post)
    (keeps : ∀ e, refuses (f e) → refuses' e) : Costs refuses n (mapError f act) s post := by
  intro left
  rw [leads_mapError]
  refine (h left).mono (fun _ _ hDone => hDone) fun stop s' hStop => ⟨hStop.1, fun e hError => ?_⟩
  cases stop with
  | error e' =>
      cases hError
      exact fun hRefuses => hStop.2 e' rfl (keeps e' hRefuses)
  | fault g => cases hError

theorem Costs.attempt {act : Scan ε' α} {post : Except ε' α → Session → Prop}
    (h : Costs refuses' n act s fun a s' => post (.ok a) s')
    (recovered : ∀ e s', ¬ refuses' e → post (.error e) s') :
    Costs refuses n (attempt act : Scan ε (Except ε' α)) s post := by
  intro left
  rw [leads_attempt]
  refine (h left).mono (fun _ _ hDone => hDone) fun stop s' hStop => ?_
  cases stop with
  | error e => exact ⟨hStop.1, recovered e s' (hStop.2 e rfl)⟩
  | fault g => exact ⟨hStop.1, accepts_fault⟩

section Covered

variable {act : ImageScan α} {post : α → Session → Prop} (left : s.reader.HasLeft n)
  (bounded : ¬ s.reader.limits.CoversAll)

include left bounded

/-- A budget that covers the costs hinders nothing. -/
theorem Costs.unhindered (h : Costs ImageError.IsRefusal n act s post) : act.Unhindered s := by
  intro stop s' hRun hinders
  have hStop := (h left).error hRun
  cases stop with
  | error e => exact hStop.2 e rfl hinders
  | fault f => exact bounded hinders.2

/-- A budget that covers the costs refuses nothing. -/
theorem Costs.unrefused {post' : α → Session → Prop}
    (h : Costs ImageError.IsRefusal n act s post)
    (fresh : Costs ImageError.IsRefusal n act { s with log := #[] } post') : act.Unrefused s := by
  refine ⟨fun shows => ?_, h.unhindered left bounded⟩
  have hFresh := fresh left
  have silent : ¬ ShowsRefusal #[] := by simp [ShowsRefusal]
  rw [Leads] at hFresh
  rw [after] at shows
  cases hRun : act { s with log := #[] } with
  | ok a s' =>
      rw [hRun] at hFresh shows
      exact silent (hFresh.1.quiet shows)
  | error stop s' =>
      rw [hRun] at hFresh shows
      exact silent (hFresh.1.quiet shows)

end Covered

end Scan

namespace Read

open Scan

variable {s : Session} {offset length maxLength : Nat}

theorem costs_chunkAt :
    Costs ReadError.IsRefusal length (chunkAt offset length) s fun bytes _ =>
      bytes.size ≤ length ∧
        (bytes.size = length → length = 0 ∨ offset + length ≤ s.reader.size) := by
  intro left
  have hSize := s.reader.size_bytesAt offset length
  by_cases inside : offset < s.reader.size
  case neg =>
    rw [Leads, chunkAt_eq, if_pos left.affords, if_neg inside]
    exact ⟨.refl s _, Nat.zero_le _, fun empty => .inl empty.symm⟩
  case pos =>
    by_cases fits : s.reader.bytesRead + (s.reader.bytesAt offset length).size < 2 ^ 64
    case neg =>
      rw [Leads, chunkAt_eq, if_pos left.affords, if_pos inside, if_neg fits]
      exact ⟨.refl s _, accepts_fault⟩
    case pos =>
      rw [Leads, chunkAt_eq, if_pos left.affords, if_pos inside, if_pos fits]
      refine ⟨⟨rfl, rfl, ?_, not_showsRefusal_push rfl⟩, by omega, by omega⟩
      exact Nat.add_le_add_left (by omega) _

theorem costs_complete {bytes : ByteArray} :
    Costs ReadError.IsRefusal 0 (complete offset length bytes) s fun _ _ =>
      bytes.size = length := by
  rw [complete]
  split
  case isTrue whole => exact costs_pure whole
  case isFalse =>
    refine costs_fail ?_
    rintro ⟨_, _, ⟨⟩⟩

/-- A record that takes up room lies in the file. -/
theorem costs_recordAt :
    Costs ReadError.IsRefusal length (recordAt offset length) s fun _ s' =>
      length = 0 ∨ offset + length ≤ s'.reader.size := by
  refine costs_chunkAt.bind (n := 0) fun bytes s₁ h₁ hBytes => ?_
  refine costs_complete.mono fun _ s₂ h₂ whole => ?_
  rw [h₂.size_eq, h₁.size_eq]
  exact hBytes.2 whole

theorem costs_chunk :
    Costs ReadError.IsRefusal length (chunk length) s fun _ _ => True := by
  refine costs_reader_bind ?_
  refine costs_chunkAt.bind (n := 0) fun bytes s₁ _ _ => ?_
  intro _
  rw [leads_bind, leads_advance]
  split
  · exact ⟨⟨rfl, rfl, Nat.le_refl _, id⟩, trivial⟩
  · exact ⟨.refl s₁ 0, accepts_fault⟩

theorem costs_record :
    Costs ReadError.IsRefusal length (record length) s fun _ _ => True := by
  refine costs_reader_bind ?_
  exact costs_chunk.bind (n := 0) fun _ _ _ _ => costs_complete.mono fun _ _ _ _ => trivial

theorem costs_stringAt :
    Costs ReadError.IsRefusal maxLength (stringAt offset maxLength) s fun _ _ => True := by
  intro left
  have hSize := s.reader.size_bytesAt offset maxLength
  have hCost : stringCost (s.reader.window offset maxLength) ≤ maxLength :=
    Nat.le_trans (stringCost_le _) (Nat.le_trans (Nat.le_of_eq hSize) (by omega))
  have hLeft : s.reader.HasLeft (stringCost (s.reader.window offset maxLength)) :=
    Nat.le_trans (Nat.add_le_add_left hCost _) left
  by_cases inside : offset < s.reader.size
  case neg =>
    rw [Leads, stringAt_eq, if_neg inside]
    refine ⟨.refl s _, ?_⟩
    rintro _ ⟨⟩ ⟨_, _, refusal⟩
    cases refusal
  case pos =>
    by_cases fits : s.reader.bytesRead + stringCost (s.reader.window offset maxLength) < 2 ^ 64
    case neg =>
      rw [Leads, stringAt_eq, if_pos inside, if_pos hLeft.affords, if_neg fits]
      exact ⟨.refl s _, accepts_fault⟩
    case pos =>
      rw [Leads, stringAt_eq, if_pos inside, if_pos hLeft.affords, if_pos fits]
      exact ⟨⟨rfl, rfl, Nat.add_le_add_left hCost _, id⟩, trivial⟩

theorem costs_seek : Costs ReadError.IsRefusal 0 (seek offset) s fun _ _ => True := by
  intro _
  rw [leads_seek]
  split
  · exact ⟨⟨rfl, rfl, Nat.le_refl _, id⟩, trivial⟩
  · refine ⟨.refl s 0, ?_⟩
    rintro _ ⟨⟩ ⟨_, _, refusal⟩
    cases refusal

end Read

theorem ImageError.not_isRefusal {e : ImageError} (h : e.cause? = none) : ¬ e.IsRefusal := by
  rintro ⟨cause, hCause, -⟩
  rw [h] at hCause
  cases hCause

namespace ImageScan

variable {α : Type} {s : Session} {n offset length maxLength : Nat} {piece : Piece}

/-- A computation on an image that spends no more than so many bytes. -/
abbrev Costs (n : Nat) (act : ImageScan α) (s : Session) (post : α → Session → Prop) : Prop :=
  Scan.Costs ImageError.IsRefusal n act s post

theorem costs_reading {act : Read α} {post : α → Session → Prop}
    (h : Scan.Costs ReadError.IsRefusal n act s post) : Costs n (reading piece act) s post := by
  refine h.mapError ?_
  rintro e ⟨_, ⟨⟩, refusal⟩
  exact refusal

theorem costs_io {act : Read α} {post : α → Session → Prop}
    (h : Scan.Costs ReadError.IsRefusal n act s post) : Costs n (io act) s post := by
  refine h.mapError ?_
  rintro e ⟨_, ⟨⟩, refusal⟩
  exact refusal

theorem costs_recordAt :
    Costs length (reading piece (Read.recordAt offset length)) s fun _ s' =>
      length = 0 ∨ offset + length ≤ s'.reader.size :=
  costs_reading Read.costs_recordAt

theorem costs_record : Costs length (reading piece (Read.record length)) s fun _ _ => True :=
  costs_reading Read.costs_record

theorem costs_word32 : Costs 4 (reading piece Read.word32) s fun _ _ => True :=
  costs_reading (Read.costs_record.bind (n := 0) fun _ _ _ _ => Scan.costs_pure trivial)

theorem costs_attempt_recordAt :
    Costs length (Scan.attempt (Read.recordAt offset length)) s fun found _ =>
      ∀ e, found = .error e → ¬ e.IsRefusal := by
  refine Scan.Costs.attempt (Read.costs_recordAt.mono fun _ _ _ _ => ?_) ?_
  · rintro _ ⟨⟩
  · rintro e _ accepted _ ⟨⟩
    exact accepted

theorem costs_attempt_stringAt :
    Costs maxLength (Scan.attempt (Read.stringAt offset maxLength)) s fun _ _ => True :=
  Read.costs_stringAt.attempt fun _ _ _ => trivial

theorem costs_reach : Costs 0 (reach piece offset) s fun _ _ => True :=
  Read.costs_seek.mapError fun _ refusal => absurd refusal (ImageError.not_isRefusal rfl)

theorem costs_attempt_seek :
    Costs 0 (Scan.attempt (Read.seek offset)) s fun _ _ => True :=
  Read.costs_seek.attempt fun _ _ _ => trivial

end ImageScan

namespace Context

variable {ctx : Context} {s : Session} {rva : Nat} {word : UInt32} {piece : Piece}

theorem costs_translateRva : ImageScan.Costs 0 (ctx.translateRva rva) s fun _ _ => True := by
  have translated : Scan.Costs ImageError.IsRefusal 0 (ctx.headers.sections.translate rva) s
      fun _ _ => True := by
    rw [SectionTable.translate]
    split
    · exact Scan.costs_pure trivial
    · exact Scan.costs_emit_bind rfl fun _ _ => Scan.costs_pure trivial
    · exact Scan.costs_emit_bind rfl fun _ _ => Scan.costs_pure trivial
  exact translated.bind (n := 0) fun _ _ _ _ => Scan.costs_pure trivial

theorem costs_translateVa {va : Nat} :
    ImageScan.Costs 0 (ctx.translateVa va) s fun _ _ => True := by
  rw [translateVa]
  split
  · exact costs_translateRva
  · exact Scan.costs_pure trivial

theorem costs_requireRva : ImageScan.Costs 0 (ctx.requireRva piece word) s fun _ _ => True := by
  refine costs_translateRva.bind (n := 0) fun offset? _ _ _ => ?_
  cases offset? with
  | none => exact Scan.costs_fail (ImageError.not_isRefusal rfl)
  | some offset => exact Scan.costs_pure trivial

theorem costs_presentDirectory {slot : Nat} :
    ImageScan.Costs 0 (ctx.presentDirectory slot) s fun _ _ => True := by
  have mapped {s : Session} {d : DataDirectory} :
      ImageScan.Costs 0 (do
        if d.virtualAddress = 0 then
          Scan.emit (.directoryWithoutAddress slot d.size.toNat)
          return none
        else return some d) s fun _ _ => True := by
    split
    · exact Scan.costs_emit_bind rfl fun _ _ => Scan.costs_pure trivial
    · exact Scan.costs_pure trivial
  rw [presentDirectory]
  split
  case isTrue => exact Scan.costs_emit_bind rfl fun _ _ => Scan.costs_pure trivial
  case isFalse =>
    cases ctx.headers.directory? slot with
    | none => exact Scan.costs_emit_bind rfl fun _ _ => Scan.costs_pure trivial
    | some d =>
        dsimp only
        split
        · exact Scan.costs_pure trivial
        split
        · exact Scan.costs_emit_bind rfl fun _ _ => mapped
        · exact mapped

theorem costs_stringAtRva :
    ImageScan.Costs ctx.maxStringLength (ctx.stringAtRva piece word) s fun _ _ => True :=
  costs_requireRva.free_bind fun _ _ _ _ => ImageScan.costs_reading Read.costs_stringAt

end Context
end PortableExecutable
