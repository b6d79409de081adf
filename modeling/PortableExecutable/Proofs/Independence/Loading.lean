import PortableExecutable.Proofs.Location
import PortableExecutable.Proofs.Coupling.Attempts
import PortableExecutable.Proofs.Coupling.Tables

/-!
One directory loaded from two sessions. The readers hold the same bytes and their budgets refuse
nothing; they may stand anywhere, and the first one may have read more. Loading begins with a move
of the cursor or without any reading, so the places where the readers stood do not matter, and the
two come to the same unless the count of the first one leaves 64 bits.
-/

namespace PortableExecutable

open Coupling

namespace Reader

/-- A reader of the content whose budget refuses nothing. -/
structure Unbounded (content : ByteArray) (r : Reader) : Prop where
  content_eq : r.content = content
  budget_eq : r.limits.maxReadBytes.toNat = 2 ^ 64 - 1

theorem Unbounded.affords {content : ByteArray} {r : Reader} (h : r.Unbounded content)
    (length : Nat) : r.Affords length := by
  simp only [Affords, Limits.allows, h.budget_eq, Scan.size_uint64, decide_eq_true_eq]
  exact Nat.min_le_right _ _

/-- Of two such readers the first has read at least as much as the second, and at least `least`. -/
structure Ahead (content : ByteArray) (least : Nat) (r₁ r₂ : Reader) : Prop where
  first : r₁.Unbounded content
  second : r₂.Unbounded content
  bytesRead_le : r₂.bytesRead ≤ r₁.bytesRead
  least_le : least ≤ r₁.bytesRead

variable {content : ByteArray} {least : Nat} {r₁ r₂ : Reader}

theorem Ahead.moved (h : r₁.Ahead content least r₂) (position : Nat) :
    (r₁.moved position r₁.bytesRead).Ahead content least (r₂.moved position r₂.bytesRead) :=
  ⟨⟨h.first.content_eq, h.first.budget_eq⟩, ⟨h.second.content_eq, h.second.budget_eq⟩,
    h.bytesRead_le, h.least_le⟩

theorem Ahead.charged (h : r₁.Ahead content least r₂) (count : Nat) :
    (r₁.charged count).Ahead content least (r₂.charged count) :=
  ⟨⟨h.first.content_eq, h.first.budget_eq⟩, ⟨h.second.content_eq, h.second.budget_eq⟩,
    Nat.add_le_add_right h.bytesRead_le count, Nat.le_add_right_of_le h.least_le⟩

end Reader

namespace Coupling

variable {content : ByteArray} {least : Nat}

/-- Readers of the same bytes, wherever they stand. -/
def anywhere (content : ByteArray) (least : Nat) : Coupling where
  Alike := Reader.Ahead content least
  Parted _ := False
  Excused stop := stop = .fault .overflow

/-- Readers of the same bytes at the same place. -/
def abreast (content : ByteArray) (least : Nat) : Coupling where
  Alike r₁ r₂ := r₁.Ahead content least r₂ ∧ r₁.position = r₂.position
  Parted _ := False
  Excused stop := stop = .fault .overflow

theorem lawful_abreast : (abreast content least).Lawful where
  content_eq alike := alike.1.first.content_eq.trans alike.1.second.content_eq.symm
  position_eq alike := alike.2
  moved alike position := ⟨alike.1.moved position, rfl⟩
  charged alike count fits :=
    ⟨Nat.lt_of_le_of_lt (Nat.add_le_add_right alike.1.bytesRead_le count) fits,
      alike.1.charged count, alike.2⟩
  overflowed _ _ _ := .inl rfl
  afforded alike length _ := alike.1.second.affords length
  refused alike length refused := absurd (alike.1.first.affords length) refused
  pushed parted _ := parted
  isRefusal excused := nomatch excused

theorem recovers_abreast : (abreast content least).Recovers := fun _ excused => nomatch excused

theorem Meets.anywhere {ε α : Type} [Caused ε] {o₁ o₂ : EStateM.Result (Stop ε) Session α}
    (h : (abreast content least).Meets o₁ o₂) : (anywhere content least).Meets o₁ o₂ := by
  cases h with
  | delivered a alike => exact .delivered a alike.1
  | stopped stop alike => exact .stopped stop alike.1
  | excused excuses => exact .excused excuses
  | partedDelivering parted => exact parted.elim
  | partedStopping parted => exact parted.elim

end Coupling

namespace Directory

variable {α : Type} {d : Directory α} {content : ByteArray} {least : Nat}

/-- A directory whose place follows from the headers and the size of the file, and whose reading
respects every coupling that lets off no error. -/
structure Steady (d : Directory α) : Prop where
  entered : ∀ ctx size, ∃ place?, ∀ s : Session, s.reader.size = size →
    (d.enter ctx).Gives s place? (s.reader.at? place?)
  respected : ∀ {C : Coupling}, C.Lawful → C.Recovers → ∀ ctx, (d.read ctx).Respects C

theorem Steady.load_meets (h : d.Steady) (ctx : Context) {s₁ s₂ : Session}
    (ahead : s₁.reader.Ahead content least s₂.reader) :
    (anywhere content least).Meets (d.load ctx s₁) (d.load ctx s₂) := by
  rw [load]
  split
  · obtain ⟨place?, hEnter⟩ := h.entered ctx content.size
    obtain ⟨log₁, h₁⟩ := hEnter s₁ (congrArg ByteArray.size ahead.first.content_eq)
    obtain ⟨log₂, h₂⟩ := hEnter s₂ (congrArg ByteArray.size ahead.second.content_eq)
    rw [Scan.bind_of_ok h₁, Scan.bind_of_ok h₂]
    cases place? with
    | none => exact .delivered _ ahead
    | some place =>
        have hRead : (Scan.within .parseDirectory (d.read ctx)).Respects
            (abreast content least) :=
          (h.respected lawful_abreast recovers_abreast ctx).within fun _ => id
        exact (hRead.meets ⟨_, log₁⟩ ⟨_, log₂⟩ ⟨ahead.moved place, rfl⟩).anywhere
  · exact .delivered _ ahead

end Directory
end PortableExecutable
