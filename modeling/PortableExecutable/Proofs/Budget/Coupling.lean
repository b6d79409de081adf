import PortableExecutable.Proofs.Coupling.Reads

/-!
One computation under two read budgets. Readers count as alike when they differ in their budgets
alone and the second one has no less. A refusal under the smaller budget is then the only thing in
which the runs can come apart. There are two ways to let the first run off for it: because it
stopped on the refusal, or because its log shows one.
-/

namespace PortableExecutable

/-- The same reader with another bound on what it may read. -/
def Reader.withBudget (r : Reader) (budget : UInt64) : Reader :=
  { r with limits := { r.limits with maxReadBytes := budget } }

def Session.withBudget (s : Session) (budget : UInt64) : Session :=
  { s with reader := s.reader.withBudget budget }

namespace Reader

/-- The two readers differ in their budgets alone, and the first one has no more. -/
structure NoRicher (r₁ r₂ : Reader) : Prop where
  content_eq : r₁.content = r₂.content
  position_eq : r₁.position = r₂.position
  bytesRead_eq : r₁.bytesRead = r₂.bytesRead
  budget_le : r₁.limits.maxReadBytes ≤ r₂.limits.maxReadBytes

theorem noRicher_withBudget (r : Reader) {small large : UInt64} (h : small ≤ large) :
    (r.withBudget small).NoRicher (r.withBudget large) :=
  ⟨rfl, rfl, rfl, h⟩

variable {r₁ r₂ : Reader}

theorem NoRicher.moved (h : r₁.NoRicher r₂) (position bytesRead : Nat) :
    (r₁.moved position bytesRead).NoRicher (r₂.moved position bytesRead) :=
  ⟨h.content_eq, rfl, rfl, h.budget_le⟩

theorem NoRicher.affords (h : r₁.NoRicher r₂) {length : Nat} (affords : r₁.Affords length) :
    r₂.Affords length := by
  have hBudget : r₁.limits.maxReadBytes.toNat ≤ r₂.limits.maxReadBytes.toNat := h.budget_le
  simp only [Affords, Limits.allows, decide_eq_true_eq] at affords ⊢
  rw [← h.bytesRead_eq]
  omega

end Reader

namespace Coupling

/-- Runs under two budgets, with one way or the other to let the first one off. -/
def betweenBudgets (Parted : Array LogEntry → Prop) (Excused : Stop ReadError → Prop) :
    Coupling where
  Alike := Reader.NoRicher
  Parted := Parted
  Excused := Excused

theorem lawful_betweenBudgets {Parted : Array LogEntry → Prop} {Excused : Stop ReadError → Prop}
    (refused : ∀ (r : Reader) (length : Nat), Excused (.error r.refusal) ∨
      ∀ log : Array LogEntry, Parted (log.push ⟨r.refusalEvent length, []⟩))
    (pushed : ∀ {log}, Parted log → ∀ entry, Parted (log.push entry))
    (isRefusal : ∀ {e}, Excused (.error e) → e.IsRefusal) :
    (betweenBudgets Parted Excused).Lawful where
  content_eq alike := alike.content_eq
  position_eq alike := alike.position_eq
  moved alike position := alike.bytesRead_eq ▸ alike.moved position _
  charged {r₁ r₂} alike count fits := by
    have hFits : r₂.bytesRead + count < 2 ^ 64 := alike.bytesRead_eq ▸ fits
    refine ⟨hFits, ?_⟩
    have hMoved := Reader.NoRicher.moved alike r₁.position (r₁.bytesRead + count)
    rwa [Reader.charged, Reader.charged, ← alike.position_eq, ← alike.bytesRead_eq]
  overflowed alike count overflows := .inr (alike.bytesRead_eq ▸ overflows)
  afforded alike _ affords := Reader.NoRicher.affords alike affords
  refused _ length _ := refused _ length
  pushed := pushed
  isRefusal := isRefusal

variable {ε α : Type} [Caused ε] {act : Scan ε α} {s : Session} {small large : UInt64}
  {Parted : Array LogEntry → Prop} {Excused : Stop ReadError → Prop}

/-- Where the first run is not let off, it comes to the same as the second one. -/
theorem outcome_of_respects (h : act.Respects (betweenBudgets Parted Excused))
    (le : small ≤ large) :
    act.outcome (s.withBudget small) = act.outcome (s.withBudget large) ∨
      (∃ stop s', act (s.withBudget small) = .error stop s' ∧
        (betweenBudgets Parted Excused).Excuses stop) ∨
      act.Leads (s.withBudget small) (fun _ s' => Parted s'.log) fun _ s' => Parted s'.log := by
  have hMeets := h.meets (s.withBudget small) (s.withBudget large)
    (s.reader.noRicher_withBudget le)
  rw [Scan.outcome, Scan.outcome, Scan.Leads]
  revert hMeets
  generalize act (s.withBudget small) = o₁, act (s.withBudget large) = o₂
  intro hMeets
  cases hMeets with
  | delivered a alike =>
      dsimp only
      rw [alike.position_eq, alike.bytesRead_eq]
      exact .inl rfl
  | stopped stop alike =>
      dsimp only
      rw [alike.position_eq, alike.bytesRead_eq]
      exact .inl rfl
  | excused excuses => exact .inr (.inl ⟨_, _, rfl, excuses⟩)
  | partedDelivering parted => exact .inr (.inr parted)
  | partedStopping parted => exact .inr (.inr parted)

end Coupling
end PortableExecutable
