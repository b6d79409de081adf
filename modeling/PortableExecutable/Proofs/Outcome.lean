import Mathlib.Algebra.Group.Nat.Defs
import PortableExecutable.ImageScan

/-!
What a computation on a session leads to. `Leads` is its weakest precondition: one condition for
the case that it delivers a value, one for the case that it stops. The rules take a computation
apart step by step, so that no later proof opens the state monad. They say nothing yet about
readers; the steps of a reader have their own rules.
-/

namespace PortableExecutable

/-- The same stop, its error renamed. -/
def Stop.map {ε ε' : Type} (f : ε → ε') : Stop ε → Stop ε'
  | .error e => .error (f e)
  | .fault g => .fault g

namespace Scan

variable {ε ε' α β : Type}

/-- From the session `s` the computation either delivers a value as `done` says or stops as
`stopped` says. -/
def Leads (act : Scan ε α) (s : Session) (done : α → Session → Prop)
    (stopped : Stop ε → Session → Prop) : Prop :=
  match act s with
  | .ok a s' => done a s'
  | .error e s' => stopped e s'

section Rules

variable {s : Session} {done : α → Session → Prop} {stopped : Stop ε → Session → Prop}

theorem Leads.mono {act : Scan ε α} {done' : α → Session → Prop}
    {stopped' : Stop ε → Session → Prop} (h : act.Leads s done stopped)
    (hDone : ∀ a s', done a s' → done' a s')
    (hStopped : ∀ e s', stopped e s' → stopped' e s') : act.Leads s done' stopped' := by
  unfold Leads at *
  cases hAct : act s with
  | ok a s' =>
      rw [hAct] at h
      exact hDone a s' h
  | error e s' =>
      rw [hAct] at h
      exact hStopped e s' h

/-- How a computation may stop can be left open. -/
theorem Leads.anyStop {act : Scan ε α} (h : act.Leads s done stopped) :
    act.Leads s done fun _ _ => True :=
  h.mono (fun _ _ hDone => hDone) fun _ _ _ => True.intro

theorem Leads.ok {act : Scan ε α} {a : α} {s' : Session} (h : act.Leads s done stopped)
    (hAct : act s = .ok a s') : done a s' := by
  rwa [Leads, hAct] at h

theorem Leads.error {act : Scan ε α} {e : Stop ε} {s' : Session} (h : act.Leads s done stopped)
    (hAct : act s = .error e s') : stopped e s' := by
  rwa [Leads, hAct] at h

@[simp] theorem leads_pure {a : α} : Leads (pure a) s done stopped ↔ done a s := Iff.rfl

@[simp] theorem leads_bind {act : Scan ε α} {next : α → Scan ε β}
    {done : β → Session → Prop} :
    Leads (act >>= next) s done stopped ↔
      act.Leads s (fun a s' => (next a).Leads s' done stopped) stopped := by
  simp only [Leads, bind, EStateM.bind]
  cases act s <;> rfl

@[simp] theorem leads_map {act : Scan ε α} {f : α → β} {done : β → Session → Prop} :
    Leads (f <$> act) s done stopped ↔ act.Leads s (fun a s' => done (f a) s') stopped := by
  simp only [Leads, Functor.map, EStateM.map]
  cases act s <;> rfl

@[simp] theorem leads_fail {e : ε} :
    Leads (fail e) s done stopped ↔ stopped (.error e) s := Iff.rfl

@[simp] theorem leads_fault {f : Fault} :
    Leads (fault f) s done stopped ↔ stopped (.fault f) s := Iff.rfl

@[simp] theorem leads_reader {done : Reader → Session → Prop} :
    Leads reader s done stopped ↔ done s.reader s := Iff.rfl

@[simp] theorem leads_emit {event : Event} {done : Unit → Session → Prop} :
    Leads (emit event) s done stopped ↔
      done () { s with log := s.log.push ⟨event, []⟩ } := Iff.rfl

@[simp] theorem leads_modify {f : Session → Session} {done : Unit → Session → Prop} :
    Leads (modify f) s done stopped ↔ done () (f s) := Iff.rfl

@[simp] theorem leads_mapError {act : Scan ε' α} {f : ε' → ε} :
    Leads (mapError f act) s done stopped ↔
      act.Leads s done fun e s' => stopped (e.map f) s' := by
  simp only [Leads, mapError]
  cases act s with
  | ok a s' => rfl
  | error e s' => cases e <;> rfl

@[simp] theorem leads_attempt {act : Scan ε' α} {done : Except ε' α → Session → Prop} :
    Leads (attempt act) s done stopped ↔
      act.Leads s (fun a s' => done (.ok a) s') fun
        | .error e, s' => done (.error e) s'
        | .fault g, s' => stopped (.fault g) s' := by
  simp only [Leads, attempt]
  cases act s with
  | ok a s' => rfl
  | error e s' => cases e <;> rfl

theorem bind_of_ok {act : Scan ε α} {next : α → Scan ε β} {a : α} {s s' : Session}
    (h : act s = .ok a s') : (act >>= next) s = next a s' := by
  simp only [bind, EStateM.bind, h]

theorem bind_of_error {act : Scan ε α} {next : α → Scan ε β} {e : Stop ε} {s s' : Session}
    (h : act s = .error e s') : (act >>= next) s = .error e s' := by
  simp only [bind, EStateM.bind, h]

theorem reader_bind {next : Reader → Scan ε β} {s : Session} :
    (reader >>= next) s = next s.reader s := rfl

theorem bind_eq_ok_iff {act : Scan ε α} {next : α → Scan ε β} {b : β} {s s'' : Session} :
    (act >>= next) s = .ok b s'' ↔ ∃ a s', act s = .ok a s' ∧ next a s' = .ok b s'' := by
  constructor
  · intro h
    cases hAct : act s with
    | ok a s' => exact ⟨a, s', rfl, (bind_of_ok hAct).symm.trans h⟩
    | error e s' => simp [bind, EStateM.bind, hAct] at h
  · intro h
    obtain ⟨a, s', hAct, hNext⟩ := h
    rw [bind_of_ok hAct, hNext]

theorem leads_within {span : Span} {act : Scan ε α} :
    Leads (within span act) s done stopped ↔
      act.Leads { s with log := #[] }
        (fun a s' => done a { s' with log := enclose span s.log s'.log })
        (fun e s' => stopped e { s' with log := enclose span s.log s'.log }) := by
  simp only [Leads, within]
  cases act { s with log := #[] } <;> rfl

theorem leads_ite {c : Prop} [Decidable c] {act act' : Scan ε α} :
    Leads (if c then act else act') s done stopped ↔
      if c then act.Leads s done stopped else act'.Leads s done stopped := by
  split <;> rfl

theorem size_uint64 : UInt64.size = 2 ^ 64 := rfl

theorem sum_of_lt {a b : Nat} (h : a + b < 2 ^ 64) : (sum a b : Scan ε Nat) = pure (a + b) :=
  if_pos h

theorem sum_of_not_lt {a b : Nat} (h : ¬ a + b < 2 ^ 64) :
    (sum a b : Scan ε Nat) = fault .overflow :=
  if_neg h

theorem leads_sum {a b : Nat} {done : Nat → Session → Prop} :
    Leads (sum a b) s done stopped ↔
      if a + b < 2 ^ 64 then done (a + b) s else stopped (.fault .overflow) s := by
  rw [sum, size_uint64]
  split <;> rfl

theorem leads_difference {a b : Nat} {done : Nat → Session → Prop} :
    Leads (difference a b) s done stopped ↔
      if b ≤ a then done (a - b) s else stopped (.fault .underflow) s := by
  unfold difference
  split <;> rfl

end Rules

end Scan

namespace ImageScan

variable {α : Type} {s : Session} {done : α → Session → Prop}
  {stopped : Stop ImageError → Session → Prop}

theorem leads_reading {piece : Piece} {act : Read α} :
    (reading piece act).Leads s done stopped ↔
      act.Leads s done fun e s' => stopped (e.map (.truncated piece)) s' :=
  Scan.leads_mapError

theorem leads_io {act : Read α} :
    (io act).Leads s done stopped ↔ act.Leads s done fun e s' => stopped (e.map .io) s' :=
  Scan.leads_mapError

end ImageScan

instance decidableEqExcept {ε α : Type} [DecidableEq ε] [DecidableEq α] :
    DecidableEq (Except ε α)
  | .ok a, .ok b => decidable_of_iff (a = b) ⟨congrArg Except.ok, Except.ok.inj⟩
  | .error e, .error f => decidable_of_iff (e = f) ⟨congrArg Except.error, Except.error.inj⟩
  | .ok _, .error _ => isFalse nofun
  | .error _, .ok _ => isFalse nofun

/-- What a run comes to: its value or its stop, where the cursor is left and what was read. -/
structure Outcome (ε α : Type) where
  result : Except (Stop ε) α
  position : Nat
  bytesRead : Nat
  deriving DecidableEq

def Scan.outcome {ε α : Type} (act : Scan ε α) (s : Session) : Outcome ε α :=
  match act s with
  | .ok a s' => ⟨.ok a, s'.reader.position, s'.reader.bytesRead⟩
  | .error stop s' => ⟨.error stop, s'.reader.position, s'.reader.bytesRead⟩

theorem Scan.outcome_of_ok {ε α : Type} {act : Scan ε α} {s s' : Session} {a : α}
    (h : act s = .ok a s') : act.outcome s = ⟨.ok a, s'.reader.position, s'.reader.bytesRead⟩ := by
  rw [outcome, h]

theorem Scan.outcome_of_error {ε α : Type} {act : Scan ε α} {s s' : Session} {stop : Stop ε}
    (h : act s = .error stop s') :
    act.outcome s = ⟨.error stop, s'.reader.position, s'.reader.bytesRead⟩ := by
  rw [outcome, h]

/-- What a computation delivers, without the session it leaves behind. -/
def Scan.delivered? {ε α : Type} (act : Scan ε α) (s : Session) : Option α :=
  (act.outcome s).result.toOption

theorem Scan.delivered?_eq_some_iff {ε α : Type} {act : Scan ε α} {s : Session} {a : α} :
    act.delivered? s = some a ↔ ∃ s', act s = .ok a s' := by
  rw [delivered?, outcome]
  cases act s <;> simp [Except.toOption]

end PortableExecutable
