import PortableExecutable.Directory
import PortableExecutable.Proofs.Outcome

/-!
A computation under a cap beside the same computation under a larger one. As long as the cap is not
reached the two runs are the same, to the session. A run that reaches its cap ends there, and all
that is left to say is how its value compares with the value of the other.
-/

namespace PortableExecutable

namespace Context

def withMaxImports (ctx : Context) (cap : UInt64) : Context :=
  { ctx with options := { ctx.options with maxImports := cap } }

def withMaxTlsCallbacks (ctx : Context) (cap : UInt64) : Context :=
  { ctx with options := { ctx.options with maxTlsCallbacks := cap } }

def withMaxResourceEntries (ctx : Context) (cap : UInt64) : Context :=
  { ctx with options := { ctx.options with maxResourceEntries := cap } }

end Context

namespace Scan

variable {ε α β : Type}

/-- Every value that the computation delivers is as `P` says. -/
def Yields (act : Scan ε α) (P : α → Prop) : Prop := ∀ s a s', act s = .ok a s' → P a

theorem yields_any {act : Scan ε α} : act.Yields fun _ => True := fun _ _ _ _ => True.intro

theorem yields_pure {a : α} {P : α → Prop} (h : P a) : (pure a : Scan ε α).Yields P := by
  intro s a' s' hPure
  cases hPure
  exact h

theorem yields_fail {e : ε} {P : α → Prop} : (fail e : Scan ε α).Yields P := by
  intro s a s' hFail
  cases hFail

theorem yields_fault {f : Fault} {P : α → Prop} : (fault f : Scan ε α).Yields P := by
  intro s a s' hFault
  cases hFault

theorem Yields.bind {act : Scan ε α} {next : α → Scan ε β} {P : α → Prop} {Q : β → Prop}
    (first : act.Yields P) (rest : ∀ a, P a → (next a).Yields Q) : (act >>= next).Yields Q := by
  intro s b s'' hRun
  obtain ⟨a, s', hFirst, hRest⟩ := bind_eq_ok_iff.mp hRun
  exact rest a (first s a s' hFirst) s' b s'' hRest

/-- What comes first does not matter for the values in the end. -/
theorem yields_after {act : Scan ε α} {next : α → Scan ε β} {Q : β → Prop}
    (rest : ∀ a, (next a).Yields Q) : (act >>= next).Yields Q :=
  yields_any.bind fun a _ => rest a

/-- From whatever session the first computation delivers a value, and `Cut` compares it with all
values of the second one. -/
def Ends (Cut : α → α → Prop) (act₁ act₂ : Scan ε α) : Prop :=
  ∃ a, (∀ s, ∃ s', act₁ s = .ok a s') ∧ act₂.Yields (Cut a)

/-- Whenever the second computation delivers a value, the first one does so from the same session.
They come to the same, or `Cut` compares their values. -/
def Capped (Cut : α → α → Prop) (act₁ act₂ : Scan ε α) : Prop :=
  ∀ s b s₂, act₂ s = .ok b s₂ →
    ∃ a s₁, act₁ s = .ok a s₁ ∧ ((a = b ∧ s₁ = s₂) ∨ Cut a b)

variable {Cut : α → α → Prop} {Cut' : β → β → Prop} {act act₁ act₂ : Scan ε α}
  {next₁ next₂ : α → Scan ε β}

theorem ends_pure {a : α} (h : act₂.Yields (Cut a)) : Ends Cut (pure a) act₂ :=
  ⟨a, fun s => ⟨s, rfl⟩, h⟩

theorem ends_emit {a : α} {event : Event} (h : act₂.Yields (Cut a)) :
    Ends Cut (do emit event; pure a) act₂ :=
  ⟨a, fun _ => ⟨_, rfl⟩, h⟩

theorem Ends.capped (h : Ends Cut act₁ act₂) : Capped Cut act₁ act₂ := by
  obtain ⟨a, hFirst, hSecond⟩ := h
  intro s b s₂ hRun
  obtain ⟨s₁, hFirst⟩ := hFirst s
  exact ⟨a, s₁, hFirst, .inr (hSecond s b s₂ hRun)⟩

theorem capped_refl : Capped Cut act act :=
  fun _ b s₂ hRun => ⟨b, s₂, hRun, .inl ⟨rfl, rfl⟩⟩

/-- Two runs that begin with the same part. -/
theorem capped_after (rest : ∀ a, Capped Cut' (next₁ a) (next₂ a)) :
    Capped Cut' (act >>= next₁) (act >>= next₂) := by
  intro s c s₂ hRun
  obtain ⟨a, s', hFirst, hRest⟩ := bind_eq_ok_iff.mp hRun
  obtain ⟨b, s₁, hRest₁, hEnd⟩ := rest a s' c s₂ hRest
  exact ⟨b, s₁, (bind_of_ok hFirst).trans hRest₁, hEnd⟩

theorem Capped.bind {P : α → Prop} (first : Capped Cut act₁ act₂) (yields : act₁.Yields P)
    (even : ∀ a, P a → Capped Cut' (next₁ a) (next₂ a))
    (cut : ∀ a b, Cut a b → Ends Cut' (next₁ a) (next₂ b)) :
    Capped Cut' (act₁ >>= next₁) (act₂ >>= next₂) := by
  intro s d s₂' hRun
  obtain ⟨b, s₂, hSecond, hRest⟩ := bind_eq_ok_iff.mp hRun
  obtain ⟨a, s₁, hFirst, ⟨rfl, rfl⟩ | hCut⟩ := first s b s₂ hSecond
  · obtain ⟨c, s₁', hRest₁, hEnd⟩ := even a (yields s a s₁ hFirst) s₁ d s₂' hRest
    exact ⟨c, s₁', (bind_of_ok hFirst).trans hRest₁, hEnd⟩
  · obtain ⟨c, hEnds, hAll⟩ := cut a b hCut
    obtain ⟨s₁', hRest₁⟩ := hEnds s₁
    exact ⟨c, s₁', (bind_of_ok hFirst).trans hRest₁, .inr (hAll s₂ d s₂' hRest)⟩

end Scan

/-- The first list is the beginning of the second one, and the cap is used up. -/
structure CutTo {α : Type} (cap : Nat) (xs ys : List α) : Prop where
  full : xs.length = cap
  isPrefix : xs <+: ys

namespace CutTo

variable {α : Type} {cap : Nat} {xs ys : List α}

theorem nil : CutTo 0 [] ys := ⟨rfl, List.nil_prefix⟩

theorem cons {x : α} (h : CutTo cap xs ys) : CutTo (cap + 1) (x :: xs) (x :: ys) :=
  ⟨congrArg Nat.succ h.full, List.cons_prefix_cons.mpr ⟨rfl, h.isPrefix⟩⟩

theorem eq_take (h : CutTo cap xs ys) : xs = ys.take cap := by
  rw [← h.full]
  exact List.prefix_iff_eq_take.mp h.isPrefix

end CutTo
end PortableExecutable
