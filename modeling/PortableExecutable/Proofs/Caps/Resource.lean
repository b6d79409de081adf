import PortableExecutable.Proofs.Caps.Rules
import PortableExecutable.Proofs.Resource

/-!
The cap on resources. The room that is left is handed down the tree, and a part that has used it up
says so to everything above it, so that nothing is added behind the last leaf.
-/

namespace PortableExecutable
namespace Resource

open Scan

/-- A part that was ended by its room, beside the same part with more room. -/
structure CutAt (room : Nat) (f f' : Flattened) : Prop where
  ended : f.goesOn = false
  leaves : CutTo room f.leaves f'.leaves

variable {ctx ctx₁ ctx₂ : Context} {root : Nat} {room room' : Nat}

theorem yields_readLeaf {path : List ResourceId} {offset : Nat} {opened : List Nat} :
    (readLeaf ctx root path offset opened room).Yields (·.leaves.length ≤ room) := by
  rw [readLeaf]
  split
  · exact yields_after fun _ => yields_pure (Nat.zero_le _)
  · exact yields_after fun _ => yields_after fun _ =>
      yields_pure (Nat.one_le_iff_ne_zero.mpr ‹_›)

theorem yields_readTarget
    {descend : List ResourceId → Nat → List Nat → Nat → ImageScan Flattened}
    (hDescend : ∀ path offset opened room,
      (descend path offset opened room).Yields (·.leaves.length ≤ room))
    {path : List ResourceId} {slot : ResourceSlot} {opened : List Nat} :
    (readTarget ctx root descend path slot opened room).Yields (·.leaves.length ≤ room) := by
  rw [readTarget]
  split
  · exact hDescend _ _ _ _
  · exact yields_readLeaf

theorem yields_proceed {others : List Nat → Nat → ImageScan Flattened} {first : Flattened}
    (hOthers : ∀ opened room, (others opened room).Yields (·.leaves.length ≤ room))
    (hFirst : first.leaves.length ≤ room) :
    (proceed others room first).Yields (·.leaves.length ≤ room) := by
  rw [proceed]
  split
  · refine (hOthers _ _).bind fun found hFound => yields_pure ?_
    rw [List.length_append]
    omega
  · exact yields_pure hFirst

theorem yields_flattenSlots
    {descend : List ResourceId → Nat → List Nat → Nat → ImageScan Flattened}
    (hDescend : ∀ path offset opened room,
      (descend path offset opened room).Yields (·.leaves.length ≤ room))
    {path : List ResourceId} {slots : List ResourceSlot} {opened : List Nat} :
    (flattenSlots ctx root descend path slots opened room).Yields (·.leaves.length ≤ room) := by
  induction slots generalizing opened room with
  | nil => exact yields_pure (Nat.zero_le _)
  | cons slot rest ih =>
      rw [flattenSlots_cons]
      refine yields_after fun id => ?_
      exact (yields_readTarget hDescend).bind fun first => yields_proceed fun _ _ => ih

theorem yields_flatten {levels : Nat} (path : List ResourceId) (offset : Nat)
    (opened : List Nat) (room : Nat) :
    (flatten ctx root levels path offset opened room).Yields (·.leaves.length ≤ room) := by
  induction levels generalizing path offset opened room with
  | zero => exact yields_after fun _ => yields_pure (Nat.zero_le _)
  | succ levels ih =>
      rw [flatten]
      split
      · exact yields_after fun _ => yields_pure (Nat.zero_le _)
      · exact yields_after fun _ => yields_flattenSlots ih

theorem capped_readLeaf {path : List ResourceId} {offset : Nat} {opened : List Nat}
    (le : room ≤ room') :
    Capped (CutAt room) (readLeaf ctx₁ root path offset opened room)
      (readLeaf ctx₂ root path offset opened room') := by
  by_cases full : room = 0
  case pos =>
    subst full
    exact (ends_emit fun _ _ _ _ => ⟨rfl, CutTo.nil⟩).capped
  case neg =>
    have roomy : room' ≠ 0 := by omega
    rw [readLeaf, readLeaf, if_neg full, if_neg roomy]
    exact capped_refl

theorem capped_readTarget
    {descend₁ descend₂ : List ResourceId → Nat → List Nat → Nat → ImageScan Flattened}
    (hDescend : ∀ path offset opened room room', room ≤ room' →
      Capped (CutAt room) (descend₁ path offset opened room) (descend₂ path offset opened room'))
    {path : List ResourceId} {slot : ResourceSlot} {opened : List Nat} (le : room ≤ room') :
    Capped (CutAt room) (readTarget ctx₁ root descend₁ path slot opened room)
      (readTarget ctx₂ root descend₂ path slot opened room') := by
  rw [readTarget, readTarget]
  split
  · exact hDescend _ _ _ _ _ le
  · exact capped_readLeaf le

/-- After a slot that has come to the same in both runs, the slots that are left are read with the
room that it leaves. -/
theorem capped_proceed {others₁ others₂ : List Nat → Nat → ImageScan Flattened}
    {first : Flattened}
    (hOthers : ∀ opened room room', room ≤ room' →
      Capped (CutAt room) (others₁ opened room) (others₂ opened room'))
    (hFirst : first.leaves.length ≤ room) (le : room ≤ room') :
    Capped (CutAt room) (proceed others₁ room first) (proceed others₂ room' first) := by
  rw [proceed, proceed]
  split
  · refine (hOthers _ _ _ (Nat.sub_le_sub_right le _)).bind yields_any
      (fun _ _ => capped_refl) fun found found' hCut => ?_
    refine ends_pure (yields_pure ⟨hCut.ended, ?_, ?_⟩)
    · rw [List.length_append, hCut.leaves.full]
      omega
    · exact (List.prefix_append_right_inj _).mpr hCut.leaves.isPrefix
  · exact capped_refl

/-- After a slot that was cut, nothing is added to its leaves. -/
theorem ends_proceed {others₁ others₂ : List Nat → Nat → ImageScan Flattened}
    {first first' : Flattened} (hCut : CutAt room first first') :
    Ends (CutAt room) (proceed others₁ room first) (proceed others₂ room' first') := by
  rw [proceed, proceed, hCut.ended]
  refine ends_pure ?_
  split
  · refine yields_after fun found => yields_pure ⟨hCut.ended, hCut.leaves.full, ?_⟩
    exact hCut.leaves.isPrefix.trans (List.prefix_append _ _)
  · exact yields_pure hCut

theorem capped_flattenSlots (hIds : ∀ slot, readId ctx₁ root slot = readId ctx₂ root slot)
    {descend₁ descend₂ : List ResourceId → Nat → List Nat → Nat → ImageScan Flattened}
    (hDescend : ∀ path offset opened room room', room ≤ room' →
      Capped (CutAt room) (descend₁ path offset opened room) (descend₂ path offset opened room'))
    (hRoom : ∀ path offset opened room,
      (descend₁ path offset opened room).Yields (·.leaves.length ≤ room))
    {path : List ResourceId} {slots : List ResourceSlot} {opened : List Nat} (le : room ≤ room') :
    Capped (CutAt room) (flattenSlots ctx₁ root descend₁ path slots opened room)
      (flattenSlots ctx₂ root descend₂ path slots opened room') := by
  induction slots generalizing opened room room' with
  | nil => exact capped_refl
  | cons slot rest ih =>
      rw [flattenSlots_cons, flattenSlots_cons, hIds]
      refine capped_after fun id => ?_
      refine (capped_readTarget hDescend le).bind (yields_readTarget hRoom) ?_ ?_
      · exact fun first hFirst => capped_proceed (fun _ _ _ le' => ih le') hFirst le
      · exact fun first first' hCut => ends_proceed hCut

theorem capped_flatten {cap cap' : UInt64} {levels : Nat} (path : List ResourceId) (offset : Nat)
    (opened : List Nat) (room room' : Nat) (le : room ≤ room') :
    Capped (CutAt room)
      (flatten (ctx.withMaxResourceEntries cap) root levels path offset opened room)
      (flatten (ctx.withMaxResourceEntries cap') root levels path offset opened room') := by
  induction levels generalizing path offset opened room room' with
  | zero => exact capped_refl
  | succ levels ih =>
      rw [flatten, flatten]
      split
      · exact capped_refl
      · have hIds (slot : ResourceSlot) : readId (ctx.withMaxResourceEntries cap) root slot =
            readId (ctx.withMaxResourceEntries cap') root slot := rfl
        exact capped_after fun slots => capped_flattenSlots hIds ih yields_flatten le

theorem yields_read :
    (read ctx).Yields (·.length ≤ ctx.options.maxResourceEntries.toNat) := by
  refine yields_after fun r => ?_
  refine (yields_flatten [] 0 [] _).bind fun found hFound => ?_
  exact yields_after fun _ => yields_pure hFound

theorem capped_read {cap cap' : UInt64} (le : cap ≤ cap') :
    Capped (CutTo cap.toNat) (read (ctx.withMaxResourceEntries cap))
      (read (ctx.withMaxResourceEntries cap')) := by
  refine capped_after fun r => ?_
  refine (capped_flatten [] 0 [] cap.toNat cap'.toNat le).bind yields_any
    (fun _ _ => capped_refl) fun found found' hCut => ?_
  exact ends_emit (yields_after fun _ => yields_pure hCut.leaves)

end Resource
end PortableExecutable
