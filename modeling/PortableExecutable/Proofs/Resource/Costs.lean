import Mathlib.Data.List.Perm.Subperm
import PortableExecutable.Proofs.Budget.Costs
import PortableExecutable.Proofs.Resource

/-!
What flattening resources costs at most. No bound on the tree is needed, since every directory is
opened once: those that were opened are at different offsets inside the file, so there are no more
of them than the file has bytes, and each is paid for by being one less that may still be opened.
-/

namespace PortableExecutable

open Scan ImageScan

variable {ctx : Context} {s : Session}

namespace Resource

/-- A name in the tree: its length and its units. -/
def nameCost (ctx : Context) : Nat := 2 + 2 * min 65535 ctx.maxStringLength

/-- The slots of one directory as it declares them, and the names and leaves of as many as there is
room for in a file of the given size. -/
def directoryCost (ctx : Context) (size : Nat) : Nat :=
  16 + 131070 * 8 + size / 8 * (nameCost ctx + 16)

theorem costs_readName {root offset : Nat} :
    ImageScan.Costs (nameCost ctx) (readName ctx root offset) s fun _ _ => True := by
  refine costs_sum_bind ?_
  refine costs_attempt_recordAt.bind fun found s₁ _ _ => ?_
  cases found with
  | error _ => exact costs_pure trivial
  | ok header =>
      have hUnits : min (header.u16 0).toNat ctx.maxStringLength * 2 ≤
          2 * min 65535 ctx.maxStringLength := by
        have hLength := (header.u16 0).toNat_lt
        omega
      refine costs_sum_bind ?_
      refine Costs.bind (n := 0) (costs_attempt_recordAt.le hUnits) fun units s₂ _ _ => ?_
      cases units with
      | ok units => exact costs_pure trivial
      | error _ => exact costs_emit_bind rfl fun _ _ => costs_pure trivial

theorem costs_readId {root : Nat} {slot : ResourceSlot} :
    ImageScan.Costs (nameCost ctx) (readId ctx root slot) s fun _ _ => True := by
  rw [readId]
  split
  · exact costs_readName
  · exact costs_pure trivial

/-- A directory whose slots are read lies in the file with all of them. -/
theorem costs_readSlots {root offset : Nat} :
    ImageScan.Costs (16 + 131070 * 8) (readSlots root offset) s fun slots _ =>
      offset < s.reader.size ∧ slots.length ≤ s.reader.size / 8 := by
  refine costs_sum_bind ?_
  refine costs_recordAt.bind fun header s₁ h₁ hHeader => ?_
  have hCount : ((header.u16 12).toNat + (header.u16 14).toNat) * 8 ≤ 131070 * 8 := by
    have hNamed := (header.u16 12).toNat_lt
    have hNumbered := (header.u16 14).toNat_lt
    omega
  have hSize := h₁.size_eq
  refine costs_sum_bind ?_
  refine Costs.bind (n := 0) (costs_recordAt.le hCount) fun slots s₂ h₂ hSlots => ?_
  have hSize' := h₂.size_eq
  refine costs_pure ⟨by omega, ?_⟩
  rw [List.length_map, Record.pairs32, List.length_ofFn]
  omega

theorem costs_readLeaf {root offset room : Nat} {path : List ResourceId} {opened : List Nat} :
    ImageScan.Costs 16 (readLeaf ctx root path offset opened room) s fun found _ =>
      found.opened = opened := by
  rw [readLeaf]
  split
  · exact costs_emit_bind rfl fun _ _ => costs_pure rfl
  · refine costs_sum_bind ?_
    exact costs_recordAt.bind (n := 0) fun _ _ _ _ => costs_pure rfl

/-- The directories that were opened are different ones, at offsets inside the file. -/
structure OpenedIn (size : Nat) (opened : List Nat) : Prop where
  distinct : opened.Nodup
  inside : ∀ o ∈ opened, o < size

theorem OpenedIn.length_le {size : Nat} {opened : List Nat} (h : OpenedIn size opened) :
    opened.length ≤ size := by
  have within : opened ⊆ List.range size := fun o hMem => List.mem_range.mpr (h.inside o hMem)
  simpa using (h.distinct.subperm within).length_le

/-- What the directories cost that may still be opened. One more is paid for than there can be,
because the place of the next one shows only when it is read. -/
def unopenedCost (ctx : Context) (size : Nat) (opened : List Nat) : Nat :=
  (size + 1 - opened.length) * directoryCost ctx size

theorem unopenedCost_cons {size offset : Nat} {opened : List Nat}
    (h : OpenedIn size (offset :: opened)) :
    unopenedCost ctx size opened =
      directoryCost ctx size + unopenedCost ctx size (offset :: opened) := by
  have hLength := h.length_le
  rw [List.length_cons] at hLength
  have hPlaces : size + 1 - opened.length = size + 1 - (opened.length + 1) + 1 := by omega
  rw [unopenedCost, unopenedCost, List.length_cons, hPlaces, Nat.succ_mul, Nat.add_comm]

/-- So many bytes and what the directories cost that may still be opened are enough, and what is
not opened is left of them. -/
def PaysForOpened (ctx : Context) (size n : Nat) (opened : List Nat) (act : ImageScan Flattened) :
    Prop :=
  ∀ s : Session, s.reader.size = size →
    ImageScan.Costs (n + unopenedCost ctx size opened) act s fun found s' =>
      OpenedIn size found.opened ∧ s'.reader.bytesRead + unopenedCost ctx size found.opened ≤
        s.reader.bytesRead + (n + unopenedCost ctx size opened)

section Walk

variable {size root offset levels room : Nat} {path : List ResourceId} {opened : List Nat}
  {slot : ResourceSlot} {slots : List ResourceSlot}
  {descend : List ResourceId → Nat → List Nat → Nat → ImageScan Flattened}

theorem paysForOpened_readTarget (hOpened : OpenedIn size opened)
    (descends : PaysForOpened ctx size 0 opened
      (descend path (ResourceSlot.offset slot.target) opened room)) :
    PaysForOpened ctx size 16 opened (readTarget ctx root descend path slot opened room) := by
  intro s hSize
  rw [readTarget]
  split
  case isTrue =>
    refine ((descends s hSize).le (by omega)).mono fun found s₁ _ hFound => ⟨hFound.1, ?_⟩
    have hSpent := hFound.2
    omega
  case isFalse =>
    refine Costs.le (costs_readLeaf.mono fun found s₁ h₁ hFound => ?_) (Nat.le_add_right 16 _)
    have hSpent := h₁.bytesRead_le
    rw [hFound]
    exact ⟨hOpened, by omega⟩

theorem paysForOpened_flattenSlots (hOpened : OpenedIn size opened)
    (descends : ∀ {path offset opened room}, OpenedIn size opened →
      PaysForOpened ctx size 0 opened (descend path offset opened room)) :
    PaysForOpened ctx size (slots.length * (nameCost ctx + 16)) opened
      (flattenSlots ctx root descend path slots opened room) := by
  induction slots generalizing opened room with
  | nil => exact fun s _ => costs_pure ⟨hOpened, Nat.add_le_add_left (Nat.le_add_left _ _) _⟩
  | cons slot rest ih =>
      intro s hSize
      have hCosts : nameCost ctx + (16 + unopenedCost ctx size opened +
          rest.length * (nameCost ctx + 16)) =
            (rest.length + 1) * (nameCost ctx + 16) + unopenedCost ctx size opened := by
        rw [Nat.succ_mul]
        omega
      rw [flattenSlots_cons, List.length_cons, ← hCosts]
      refine costs_readId.bind fun id s₁ h₁ _ => ?_
      have hSpent := h₁.bytesRead_le
      have hSize₁ : s₁.reader.size = size := h₁.size_eq.trans hSize
      have target : PaysForOpened ctx size 16 opened
          (readTarget ctx root descend (path ++ [id]) slot opened room) :=
        paysForOpened_readTarget hOpened (descends hOpened)
      refine Costs.bind_rest ((target s₁ hSize₁).le (Nat.le_add_right _ _))
        fun first s₂ h₂ hFirst => ?_
      obtain ⟨hOpened', hSpent'⟩ := hFirst
      refine ⟨rest.length * (nameCost ctx + 16) + unopenedCost ctx size first.opened,
        by omega, ?_⟩
      rw [proceed]
      split
      case isTrue =>
        have others : PaysForOpened ctx size (rest.length * (nameCost ctx + 16)) first.opened
            (flattenSlots ctx root descend path rest first.opened
              (room - first.leaves.length)) := ih hOpened'
        refine Costs.bind (n := 0) (others s₂ (h₂.size_eq.trans hSize₁))
          fun found s₃ _ hFound => costs_pure ?_
        have hSpent'' := hFound.2
        exact ⟨hFound.1, by dsimp only; omega⟩
      case isFalse => exact costs_pure ⟨hOpened', by omega⟩

theorem directoryCost_le_unopenedCost (hOpened : OpenedIn size opened) :
    directoryCost ctx size ≤ unopenedCost ctx size opened := by
  have hLength := hOpened.length_le
  exact Nat.le_mul_of_pos_left _ (by omega)

/-- A directory that is opened is paid for by being one less that may still be opened. -/
theorem paysForOpened_flatten (hOpened : OpenedIn size opened) :
    PaysForOpened ctx size 0 opened (flatten ctx root levels path offset opened room) := by
  have unopened {opened : List Nat} {event : Event} (hOpened : OpenedIn size opened)
      (silent : event.isRefusal = false) :
      PaysForOpened ctx size 0 opened (emit event >>= fun _ => pure ⟨opened, [], true⟩) := by
    intro s _
    refine costs_emit_bind silent fun s₁ hReader => costs_pure ⟨hOpened, ?_⟩
    rw [hReader, Nat.zero_add]
  induction levels generalizing path offset opened room with
  | zero => exact unopened hOpened rfl
  | succ levels ih =>
      intro s hSize
      rw [flatten]
      split
      case isTrue => exact unopened hOpened rfl s hSize
      case isFalse new =>
        have hEnough : directoryCost ctx size ≤ unopenedCost ctx size opened :=
          directoryCost_le_unopenedCost hOpened
        rw [directoryCost] at hEnough
        refine Costs.bind_rest (Costs.le (costs_readSlots.mono fun slots s₁ h₁ hRead =>
          And.intro hRead h₁.bytesRead_le) (by omega)) fun slots s₁ h₁ hRead => ?_
        obtain ⟨⟨inside, few⟩, hSpent⟩ := hRead
        rw [hSize] at inside few
        have hOpened' : OpenedIn size (offset :: opened) := by
          rw [List.contains_iff_mem] at new
          exact ⟨List.nodup_cons.mpr ⟨new, hOpened.distinct⟩,
            List.forall_mem_cons.mpr ⟨inside, hOpened.inside⟩⟩
        have hLess : unopenedCost ctx size opened =
            directoryCost ctx size + unopenedCost ctx size (offset :: opened) :=
          unopenedCost_cons hOpened'
        have hFew := Nat.mul_le_mul_right (nameCost ctx + 16) few
        rw [directoryCost] at hLess
        refine ⟨slots.length * (nameCost ctx + 16) + unopenedCost ctx size (offset :: opened),
          by omega, ?_⟩
        have walk : PaysForOpened ctx size (slots.length * (nameCost ctx + 16)) (offset :: opened)
            (flattenSlots ctx root (flatten ctx root levels) path slots (offset :: opened) room) :=
          paysForOpened_flattenSlots hOpened' ih
        refine (walk s₁ (h₁.size_eq.trans hSize)).mono fun found s₂ _ hFound => ⟨hFound.1, ?_⟩
        have hSpent' := hFound.2
        omega

end Walk

theorem costs_read :
    ImageScan.Costs ((s.reader.size + 1) * directoryCost ctx s.reader.size) (read ctx) s
      fun _ _ => True := by
  refine costs_reader_bind ?_
  have none : OpenedIn s.reader.size [] :=
    ⟨List.nodup_nil, fun _ hMem => absurd hMem List.not_mem_nil⟩
  refine ((paysForOpened_flatten none s rfl).bind (n := 0) fun found s₁ _ _ => ?_).le ?_
  · exact costs_emit_bind rfl fun _ _ => costs_pure trivial
  · rw [unopenedCost, List.length_nil, Nat.sub_zero]
    omega

end Resource
end PortableExecutable
