import PortableExecutable.Proofs.Reader.Steps

/-!
Two runs side by side. A coupling says which readers count as alike and when the first run is let
off, so that the second one need not agree with it any more: for good, once its log tells so, or
because it stopped for a reason that does not count. Two computations agree when from alike readers
they come to the same, or the first run is let off. The rules here follow the shape of a
computation and know no single coupling.
-/

namespace PortableExecutable

/-- Errors that can go back to a read. -/
class Caused (ε : Type) where
  cause? : ε → Option ReadError

instance : Caused ReadError := ⟨some⟩

instance : Caused ImageError := ⟨ImageError.cause?⟩

/-- The stop of a read that a stop goes back to. -/
def Stop.origin? {ε : Type} [Caused ε] : Stop ε → Option (Stop ReadError)
  | .error e => (Caused.cause? e).map .error
  | .fault f => some (.fault f)

structure Coupling where
  /-- Readers from which the two runs go on alike. -/
  Alike : Reader → Reader → Prop
  /-- Logs of the first run after which it counts no more. -/
  Parted : Array LogEntry → Prop
  /-- Stops of the first run that do not count. -/
  Excused : Stop ReadError → Prop

namespace Coupling

variable {ε ε' α β : Type} [Caused ε] [Caused ε'] {C : Coupling}

def Excuses (C : Coupling) (stop : Stop ε) : Prop :=
  ∃ origin, stop.origin? = some origin ∧ C.Excused origin

/-- How the outcomes of the two runs compare. -/
inductive Meets (C : Coupling) : EStateM.Result (Stop ε) Session α →
    EStateM.Result (Stop ε) Session α → Prop
  | delivered (a : α) {s₁ s₂ : Session} :
      C.Alike s₁.reader s₂.reader → Meets C (.ok a s₁) (.ok a s₂)
  | stopped (stop : Stop ε) {s₁ s₂ : Session} :
      C.Alike s₁.reader s₂.reader → Meets C (.error stop s₁) (.error stop s₂)
  | excused {stop : Stop ε} {s₁ : Session} {o₂ : EStateM.Result (Stop ε) Session α} :
      C.Excuses stop → Meets C (.error stop s₁) o₂
  | partedDelivering {a : α} {s₁ : Session} {o₂ : EStateM.Result (Stop ε) Session α} :
      C.Parted s₁.log → Meets C (.ok a s₁) o₂
  | partedStopping {stop : Stop ε} {s₁ : Session} {o₂ : EStateM.Result (Stop ε) Session α} :
      C.Parted s₁.log → Meets C (.error stop s₁) o₂

/-- The computation does not bring runs together again that have parted. -/
def StaysParted (C : Coupling) (act : Scan ε α) : Prop :=
  ∀ s : Session, C.Parted s.log →
    act.Leads s (fun _ s' => C.Parted s'.log) fun _ s' => C.Parted s'.log

/-- From alike readers the two computations come to the same, as far as the first run counts. -/
structure Agrees (C : Coupling) (act₁ act₂ : Scan ε α) : Prop where
  meets : ∀ s₁ s₂ : Session, C.Alike s₁.reader s₂.reader → C.Meets (act₁ s₁) (act₂ s₂)
  staysParted : C.StaysParted act₁

theorem Meets.of_parted {act₁ : Scan ε α} {s₁ : Session}
    {o₂ : EStateM.Result (Stop ε) Session α}
    (h : act₁.Leads s₁ (fun _ s' => C.Parted s'.log) fun _ s' => C.Parted s'.log) :
    C.Meets (act₁ s₁) o₂ := by
  rw [Scan.Leads] at h
  cases hAct : act₁ s₁ with
  | ok a s' =>
      rw [hAct] at h
      exact .partedDelivering h
  | error e s' =>
      rw [hAct] at h
      exact .partedStopping h

theorem Agrees.bind {act₁ act₂ : Scan ε α} {next₁ next₂ : α → Scan ε β}
    (first : C.Agrees act₁ act₂) (rest : ∀ a, C.Agrees (next₁ a) (next₂ a)) :
    C.Agrees (act₁ >>= next₁) (act₂ >>= next₂) := by
  constructor
  · intro s₁ s₂ alike
    have hFirst := first.meets s₁ s₂ alike
    simp only [Bind.bind, EStateM.bind]
    revert hFirst
    generalize act₁ s₁ = o₁, act₂ s₂ = o₂
    intro hFirst
    cases hFirst with
    | delivered a alike' => exact (rest a).meets _ _ alike'
    | stopped stop alike' => exact .stopped stop alike'
    | excused hExcused => exact .excused hExcused
    | @partedDelivering a s₁' _ parted => exact .of_parted ((rest a).staysParted s₁' parted)
    | partedStopping parted => exact .partedStopping parted
  · intro s parted
    rw [Scan.leads_bind]
    apply Scan.Leads.mono (first.staysParted s parted)
    · exact fun a s' parted' => (rest a).staysParted s' parted'
    · exact fun _ _ parted' => parted'

theorem excuses_mapError {f : ε' → ε} (keeps : ∀ e, Caused.cause? (f e) = Caused.cause? e)
    {stop : Stop ε'} (h : C.Excuses stop) : C.Excuses (stop.map f) := by
  obtain ⟨origin, hOrigin, hExcused⟩ := h
  refine ⟨origin, ?_, hExcused⟩
  cases stop with
  | error e => rw [← hOrigin, Stop.map, Stop.origin?, Stop.origin?, keeps]
  | fault f => exact hOrigin

theorem agrees_pure {a : α} : C.Agrees (pure a : Scan ε α) (pure a) :=
  ⟨fun _ _ alike => .delivered a alike, fun _ parted => parted⟩

theorem agrees_fail {e : ε} : C.Agrees (Scan.fail e : Scan ε α) (Scan.fail e) :=
  ⟨fun _ _ alike => .stopped (.error e) alike, fun _ parted => parted⟩

theorem agrees_fault {f : Fault} : C.Agrees (Scan.fault f : Scan ε α) (Scan.fault f) :=
  ⟨fun _ _ alike => .stopped (.fault f) alike, fun _ parted => parted⟩

theorem agrees_sum {a b : Nat} : C.Agrees (Scan.sum a b : Scan ε Nat) (Scan.sum a b) := by
  rw [Scan.sum]
  split
  · exact agrees_pure
  · exact agrees_fault

theorem agrees_difference {a b : Nat} :
    C.Agrees (Scan.difference a b : Scan ε Nat) (Scan.difference a b) := by
  rw [Scan.difference]
  split
  · exact agrees_pure
  · exact agrees_fault

theorem agrees_dite {c : Prop} [Decidable c] {act₁ act₂ : c → Scan ε α}
    {act₁' act₂' : ¬ c → Scan ε α} (holds : ∀ h, C.Agrees (act₁ h) (act₂ h))
    (fails : ∀ h, C.Agrees (act₁' h) (act₂' h)) :
    C.Agrees (if h : c then act₁ h else act₁' h) (if h : c then act₂ h else act₂' h) := by
  by_cases h : c
  · rw [dif_pos h, dif_pos h]
    exact holds h
  · rw [dif_neg h, dif_neg h]
    exact fails h

theorem Agrees.map {act₁ act₂ : Scan ε α} {f : α → β} (h : C.Agrees act₁ act₂) :
    C.Agrees (f <$> act₁) (f <$> act₂) := by
  rw [map_eq_pure_bind, map_eq_pure_bind]
  exact h.bind fun _ => agrees_pure

theorem Agrees.mapError {act₁ act₂ : Scan ε' α} {f : ε' → ε}
    (keeps : ∀ e, Caused.cause? (f e) = Caused.cause? e) (h : C.Agrees act₁ act₂) :
    C.Agrees (Scan.mapError f act₁) (Scan.mapError f act₂) := by
  constructor
  · intro s₁ s₂ alike
    have hAct := h.meets s₁ s₂ alike
    simp only [Scan.mapError]
    revert hAct
    generalize act₁ s₁ = o₁, act₂ s₂ = o₂
    intro hAct
    cases hAct with
    | delivered a alike' => exact .delivered a alike'
    | stopped stop alike' =>
        cases stop with
        | error e => exact .stopped (.error (f e)) alike'
        | fault g => exact .stopped (.fault g) alike'
    | @excused stop s₁' _ hExcused =>
        have hMapped := excuses_mapError keeps hExcused
        cases stop with
        | error e => exact .excused hMapped
        | fault g => exact .excused hMapped
    | partedDelivering parted => exact .partedDelivering parted
    | @partedStopping stop _ _ parted =>
        cases stop with
        | error e => exact .partedStopping parted
        | fault g => exact .partedStopping parted
  · intro s parted
    rw [Scan.leads_mapError]
    exact h.staysParted s parted

/-- An attempt hides the error of the first run. What comes after has to stop on an error that does
not count, and so bring it back. -/
theorem Agrees.attempt_bind {act₁ act₂ : Read α} {next₁ next₂ : Except ReadError α → Scan ε β}
    (h : C.Agrees act₁ act₂) (rest : ∀ r, C.Agrees (next₁ r) (next₂ r))
    (reported : ∀ e, C.Excused (.error e) → ∀ s, ∃ stop s',
      next₁ (.error e) s = .error stop s' ∧ C.Excuses stop) :
    C.Agrees (Scan.attempt act₁ >>= next₁) (Scan.attempt act₂ >>= next₂) := by
  constructor
  · intro s₁ s₂ alike
    have hAct := h.meets s₁ s₂ alike
    simp only [Bind.bind, EStateM.bind, Scan.attempt]
    revert hAct
    generalize act₁ s₁ = o₁, act₂ s₂ = o₂
    intro hAct
    cases hAct with
    | delivered a alike' => exact (rest (.ok a)).meets _ _ alike'
    | stopped stop alike' =>
        cases stop with
        | error e => exact (rest (.error e)).meets _ _ alike'
        | fault g => exact .stopped (.fault g) alike'
    | @excused stop s₁' _ hExcused =>
        cases stop with
        | error e =>
            obtain ⟨origin, hOrigin, hOriginExcused⟩ := hExcused
            cases hOrigin
            obtain ⟨stop, s', hNext, hStop⟩ := reported e hOriginExcused s₁'
            simp only [hNext]
            exact .excused hStop
        | fault g => exact .excused hExcused
    | @partedDelivering a s₁' _ parted => exact .of_parted ((rest (.ok a)).staysParted s₁' parted)
    | @partedStopping stop s₁' _ parted =>
        cases stop with
        | error e => exact .of_parted ((rest (.error e)).staysParted s₁' parted)
        | fault g => exact .partedStopping parted
  · intro s parted
    rw [Scan.leads_bind, Scan.leads_attempt]
    apply Scan.Leads.mono (h.staysParted s parted)
    · exact fun a s' parted' => (rest (.ok a)).staysParted s' parted'
    · intro stop s' parted'
      cases stop with
      | error e => exact (rest (.error e)).staysParted s' parted'
      | fault g => exact parted'

/-- Without parting, what a span adds to the log does not matter. -/
theorem Agrees.within {span : Span} {act₁ act₂ : Scan ε α} (never : ∀ log, ¬ C.Parted log)
    (h : C.Agrees act₁ act₂) : C.Agrees (Scan.within span act₁) (Scan.within span act₂) := by
  constructor
  · intro s₁ s₂ alike
    have hAct := h.meets { s₁ with log := #[] } { s₂ with log := #[] } alike
    simp only [Scan.within]
    revert hAct
    generalize act₁ _ = o₁, act₂ _ = o₂
    intro hAct
    cases hAct with
    | delivered a alike' => exact .delivered a alike'
    | stopped stop alike' => exact .stopped stop alike'
    | excused hExcused => exact .excused hExcused
    | partedDelivering parted => exact absurd parted (never _)
    | partedStopping parted => exact absurd parted (never _)
  · exact fun s parted => absurd parted (never _)

end Coupling
end PortableExecutable
