import PortableExecutable.Proofs.Budget.Names
import PortableExecutable.Proofs.Reader.ReadsOn
import PortableExecutable.Proofs.Safety.Steps

/-!
Runs that the budget refuses nothing. Where refused reads are gone over in silence, the end of a run
does not tell whether there were any; its log does. Without them the run comes to the same as under
the largest budget there is, and so it is enough to judge the file there, where an attempted read
fails only if the file has nothing to read.
-/

namespace PortableExecutable

open Coupling

/-- The budget covers every read. -/
def Limits.CoversAll (limits : Limits) : Prop := limits.maxReadBytes.toNat = 2 ^ 64 - 1

instance (limits : Limits) : Decidable limits.CoversAll := inferInstanceAs (Decidable (_ = _))

namespace Session

variable {content : ByteArray} {limits : Limits} {position : Nat} {s : Session}

theorem Reads.affords (h : s.Reads content limits position) (covers : limits.CoversAll)
    (length : Nat) : s.reader.Affords length := by
  rw [h.affords_iff, covers]
  exact Nat.min_le_right _ _

/-- Under the largest budget a reader that reads on stays inside its file, whatever it has read. -/
theorem Reads.of_readsOn {s' : Session} (h : s.Reads content limits position)
    (covers : limits.CoversAll) (on : s.reader.ReadsOn s'.reader) :
    s'.Reads content limits position := by
  have hSize : s'.reader.size = s.reader.size := by
    rw [Reader.size_eq, Reader.size_eq, on.content_eq]
  have hPosition : s'.reader.position = position := on.position_eq.trans h.position_eq
  have hLimits : s'.reader.limits = limits := on.limits_eq.trans h.limits_eq
  refine ⟨on.content_eq.trans h.content_eq, hLimits, hPosition, ?_, ?_, fun bounded => ?_⟩
  · rw [hSize, hPosition, ← h.position_eq]
    exact h.inside.position_le
  · rw [hSize]
    exact h.inside.size_lt
  · rw [hLimits, covers] at bounded
    exact absurd bounded (Nat.lt_irrefl _)

/-- What only a refusal or a missing part of the file can stop is decided by the file. -/
theorem Reads.judges_of_leads {α : Type} {act : ImageScan α} {present : Prop}
    {rejected : ImageError → Prop} {post : α → Session → Prop}
    (h : s.Reads content limits position) (covers : limits.CoversAll) (holds : present)
    (led : act.Leads s (fun a s' => s.reader.ReadsOn s'.reader ∧ post a s')
      fun stop _ => ImageScan.Stops present stop) :
    Scan.Judges limits act s True rejected fun a s' =>
      post a s' ∧ s'.Reads content limits position := by
  refine led.mono ?_ fun stop s' hStop => ?_
  · exact fun a s' hDone => ⟨trivial, hDone.2, h.of_readsOn covers hDone.1⟩
  · cases stop with
    | error e => exact .inl (hStop.resolve_right fun absent => absent holds)
    | fault f => exact .inl ⟨hStop, covers⟩

/-- The session with all its budget there is. -/
def withLargestBudget (s : Session) : Session := s.withBudget (UInt64.ofNat (2 ^ 64 - 1))

theorem coversAll_withLargestBudget : s.withLargestBudget.reader.limits.CoversAll := rfl

theorem reads_withLargestBudget (inside : s.reader.Inside) :
    s.withLargestBudget.Reads s.reader.content s.withLargestBudget.reader.limits
      s.reader.position := by
  have covers := s.coversAll_withLargestBudget
  rw [Limits.CoversAll] at covers
  exact ⟨rfl, rfl, rfl, inside.position_le, inside.size_lt, by omega⟩

/-- Only the largest budget leaves a reader that is inside its file without a sound count. -/
theorem sound_of_inside (inside : s.reader.Inside) (bounded : ¬ s.reader.limits.CoversAll) :
    s.reader.Sound := by
  have hBudget := s.reader.limits.maxReadBytes.toNat_lt
  have hSize := inside.size_lt
  rw [Limits.CoversAll] at bounded
  exact ⟨inside.position_le, inside.bytesRead_le (by omega), by omega, by omega⟩

end Session

namespace Coupling

variable {α : Type} {act : ImageScan α} {s₁ s₂ : Session}

/-- A run whose log shows no refusal comes to the same under a larger budget. -/
theorem outcome_eq_of_silent (respects : act.Respects untilRefused)
    (alike : s₁.reader.NoRicher s₂.reader) (silent : ¬ ShowsRefusal (act.after s₁).log) :
    act.outcome s₁ = act.outcome s₂ := by
  have hMeets := respects.meets s₁ s₂ alike
  rw [Scan.after] at silent
  rw [Scan.outcome, Scan.outcome]
  revert hMeets silent
  generalize act s₁ = o₁, act s₂ = o₂
  intro silent hMeets
  cases hMeets with
  | delivered a alike' => simp only [alike'.position_eq, alike'.bytesRead_eq]
  | stopped stop alike' => simp only [alike'.position_eq, alike'.bytesRead_eq]
  | excused excuses =>
      obtain ⟨_, _, impossible⟩ := excuses
      exact impossible.elim
  | partedDelivering parted => exact absurd parted silent
  | partedStopping parted => exact absurd parted silent

end Coupling

namespace Scan

variable {α : Type} {act : ImageScan α} {s : Session} {accepted : Prop} {post : α → Prop}

/-- The budget refuses nothing on the way, and it is not what the run stops with. -/
structure Unrefused (act : ImageScan α) (s : Session) : Prop where
  silent : ¬ ShowsRefusal (act.after { s with log := #[] }).log
  unhindered : act.Unhindered s

theorem Unrefused.outcome_eq (h : act.Unrefused s) (respects : act.Respects untilRefused) :
    act.outcome s = act.outcome s.withLargestBudget := by
  have hBudget : s.reader.limits.maxReadBytes ≤ UInt64.ofNat (2 ^ 64 - 1) :=
    Nat.le_pred_of_lt s.reader.limits.maxReadBytes.toNat_lt
  have forgotten : act.outcome { s with log := #[] } = act.outcome s :=
    outcome_eq_of_silent respects (s.reader.noRicher_withBudget (UInt64.le_refl _)) h.silent
  have enlarged : act.outcome { s with log := #[] } = act.outcome s.withLargestBudget :=
    outcome_eq_of_silent respects (s.reader.noRicher_withBudget hBudget) h.silent
  exact forgotten.symm.trans enlarged

/-- A computation that delivers exactly where `accepted` holds, and then as `post` says. Elsewhere
it stops with an error. -/
structure Verdict (act : ImageScan α) (s : Session) (accepted : Prop) (post : α → Prop) : Prop where
  delivers_iff : (∃ a, act.delivered? s = some a) ↔ accepted
  holds : ∀ a, act.delivered? s = some a → post a
  fails : ¬ accepted → ∃ e, (act.outcome s).result = .error (.error e)

theorem Judges.verdict {rejected : ImageError → Prop}
    (h : Judges s.reader.limits act s accepted rejected fun a _ => post a)
    (unhindered : act.Unhindered s) : act.Verdict s accepted post := by
  refine ⟨?_, fun a hRun => ?_, fun refuted => ?_⟩
  · simp only [delivered?_eq_some_iff]
    exact h.exists_ok_iff unhindered
  · obtain ⟨s', hRun⟩ := delivered?_eq_some_iff.mp hRun
    exact (Leads.ok h hRun).2
  · obtain ⟨e, s', hRun, -⟩ := h.exists_error unhindered refuted
    exact ⟨e, by rw [outcome_of_error hRun]⟩

theorem Verdict.of_outcome_eq {s' : Session} (h : act.Verdict s accepted post)
    (same : act.outcome s' = act.outcome s) : act.Verdict s' accepted post := by
  have hDelivered : act.delivered? s' = act.delivered? s :=
    congrArg (fun o : Outcome ImageError α => o.result.toOption) same
  refine ⟨?_, ?_, ?_⟩
  · rw [hDelivered]
    exact h.delivers_iff
  · rw [hDelivered]
    exact h.holds
  · rw [same]
    exact h.fails

/-- What is not hindered by its own budget is not hindered by the largest one. -/
theorem Unrefused.unhindered_withLargestBudget (h : act.Unrefused s)
    (same : act.outcome s = act.outcome s.withLargestBudget) (inside : s.reader.Inside)
    (safe : s.reader.Sound → act.Safe s fun _ _ => True) :
    act.Unhindered s.withLargestBudget := by
  intro stop s' hRun hinders
  rw [outcome_of_error hRun] at same
  cases hOwn : act s with
  | ok a s'' =>
      rw [outcome_of_ok hOwn] at same
      cases congrArg Outcome.result same
  | error stop' s'' =>
      rw [outcome_of_error hOwn] at same
      cases congrArg Outcome.result same
      cases stop with
      | error e => exact h.unhindered _ _ hOwn hinders
      | fault f =>
          by_cases covers : s.reader.limits.CoversAll
          case pos => exact h.unhindered _ _ hOwn ⟨hinders.1, covers⟩
          case neg =>
            obtain ⟨-, e, hError⟩ := Leads.error (safe (s.sound_of_inside inside covers)) hOwn
            cases hError

/-- What the file decides under the largest budget, it decides under any that refuses nothing. -/
theorem Unrefused.verdict {rejected : ImageError → Prop} (h : act.Unrefused s)
    (inside : s.reader.Inside) (respects : act.Respects untilRefused)
    (safe : s.reader.Sound → act.Safe s fun _ _ => True)
    (judged : Judges s.withLargestBudget.reader.limits act s.withLargestBudget accepted rejected
      fun a _ => post a) : act.Verdict s accepted post := by
  have same := h.outcome_eq respects
  have unhindered := h.unhindered_withLargestBudget same inside safe
  exact (judged.verdict unhindered).of_outcome_eq same

end Scan

namespace ImageScan

variable {content : ByteArray} {limits : Limits} {position offset length maxLength : Nat}
  {s : Session} {rejected : ImageError → Prop}

theorem judges_attempt_recordAt (h : s.Reads content limits position)
    (covers : limits.CoversAll) :
    Scan.Judges limits (Scan.attempt (Read.recordAt offset length)) s True rejected
      fun found s' => Record.Attempted content offset found ∧ s'.Reads content limits position := by
  have led : (Scan.attempt (Read.recordAt offset length) : ImageScan _).Leads s
      (fun found s' => s.reader.ReadsOn s'.reader ∧ (Record.Attempted content offset found ∨
        (∃ e, found = .error e) ∧ ¬ s'.reader.Affords length)) fun stop _ => Stops True stop := by
    refine leads_attempt_recordAt fun found s' hFound on => ⟨on, ?_⟩
    rwa [← h.content_eq]
  refine (h.judges_of_leads covers trivial led).mono fun found s' _ hFound => ⟨?_, hFound.2⟩
  exact hFound.1.resolve_right fun refused => refused.2 (hFound.2.affords covers length)

/-- An attempt at a string delivers the text unless it would begin behind the end of the file. -/
theorem judges_attempt_stringAt (h : s.Reads content limits position)
    (covers : limits.CoversAll) :
    Scan.Judges limits (Scan.attempt (Read.stringAt offset maxLength)) s True rejected
      fun found s' =>
        found.toOption =
            (if offset < content.size then some (Layout.text content offset maxLength) else none) ∧
          s'.Reads content limits position := by
  have hSize : s.reader.size = content.size := by rw [Reader.size_eq, h.content_eq]
  rw [Scan.Judges, Scan.leads_attempt]
  apply Read.leads_stringAt
  · intro outside
    rw [hSize] at outside ⊢
    exact ⟨True.intro, (if_neg (by omega)).symm, h⟩
  · intro _ refused
    exact absurd (h.affords covers _) refused
  · intro covered overflows _
    exact .inl (h.hinders_overflow covered (Nat.le_refl _) overflows)
  · intro inside covered log
    have hReads := h.moved covered (Nat.le_refl _) h.position_le log
    rw [hSize] at inside
    refine ⟨True.intro, ?_, ?_⟩
    · rw [if_pos inside, Layout.text, Layout.bytes, ← h.bytesAt_eq]
      rfl
    · rw [Reader.charged, h.position_eq]
      exact hReads

end ImageScan
end PortableExecutable
