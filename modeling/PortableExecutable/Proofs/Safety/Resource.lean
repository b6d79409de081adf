import PortableExecutable.Proofs.Resource
import PortableExecutable.Proofs.Safety.Directory

/-!
Safety of the resource tree. The root is a 32-bit place and every offset into the tree has 31
bits, so all places in it are in range, whatever the slots say; how deep the tree is or whether it
turns back on itself does not matter here.
-/

namespace PortableExecutable

theorem ResourceSlot.offset_lt (word : UInt32) : offset word < 2 ^ 31 :=
  Nat.mod_lt _ (by decide)

namespace Resource

variable {s : Session} {ctx : Context} {root offset : Nat}

theorem safe_readName (h : s.reader.Sound) (hRoot : root < 2 ^ 32) (hOffset : offset < 2 ^ 31) :
    (readName ctx root offset).Safe s fun _ _ => True := by
  have attempted {place length : Nat} {s : Session} (h : s.reader.Sound) :
      (Scan.attempt (Read.recordAt place length) : ImageScan _).Safe s fun _ _ => True :=
    (Read.safe_recordAt h).weaken.attempt fun _ _ _ => True.intro
  refine Scan.safe_sum_bind (by omega) ?_
  refine (attempted h).bind ?_
  intro header s₁ h₁ _
  cases header with
  | error _ => exact .pure h₁.sound True.intro
  | ok header =>
      refine Scan.safe_sum_bind (by omega) ?_
      refine (attempted h₁.sound).bind ?_
      intro units s₂ h₂ _
      cases units with
      | ok units => exact .pure h₂.sound True.intro
      | error _ =>
          refine (Scan.safe_emit h₂.sound).bind ?_
          intro _ s₃ h₃ _
          exact .pure h₃.sound True.intro

theorem safe_readId {slot : ResourceSlot} (h : s.reader.Sound) (hRoot : root < 2 ^ 32) :
    (readId ctx root slot).Safe s fun _ _ => True := by
  rw [readId]
  split
  · exact safe_readName h hRoot (ResourceSlot.offset_lt slot.name)
  · exact .pure h True.intro

theorem safe_readSlots (h : s.reader.Sound) (hRoot : root < 2 ^ 32) (hOffset : offset < 2 ^ 31) :
    (readSlots root offset).Safe s fun _ _ => True := by
  refine Scan.safe_sum_bind (by omega) ?_
  refine (ImageScan.safe_reading (Read.safe_recordAt h)).bind ?_
  intro _ s₁ h₁ _
  refine Scan.safe_sum_bind (by omega) ?_
  refine (ImageScan.safe_reading (Read.safe_recordAt h₁.sound)).bind ?_
  intro _ s₂ h₂ _
  exact .pure h₂.sound True.intro

theorem safe_readLeaf {path : List ResourceId} {opened : List Nat} {room : Nat}
    (h : s.reader.Sound) (hRoot : root < 2 ^ 32) (hOffset : offset < 2 ^ 31) :
    (readLeaf ctx root path offset opened room).Safe s fun _ _ => True := by
  rw [readLeaf]
  split
  · refine (Scan.safe_emit h).bind ?_
    intro _ s₁ h₁ _
    exact .pure h₁.sound True.intro
  · refine Scan.safe_sum_bind (by omega) ?_
    refine (ImageScan.safe_reading (Read.safe_recordAt h)).bind ?_
    intro _ s₁ h₁ _
    exact .pure h₁.sound True.intro

/-- Whatever opens a subdirectory is safe at every offset that a slot can hold. -/
def Descends (descend : List ResourceId → Nat → List Nat → Nat → ImageScan Flattened) : Prop :=
  ∀ (s : Session) (path : List ResourceId) (offset : Nat) (opened : List Nat) (room : Nat),
    s.reader.Sound → offset < 2 ^ 31 →
      (descend path offset opened room).Safe s fun _ _ => True

theorem safe_readTarget
    {descend : List ResourceId → Nat → List Nat → Nat → ImageScan Flattened}
    {path : List ResourceId} {slot : ResourceSlot} {opened : List Nat} {room : Nat}
    (h : s.reader.Sound) (hRoot : root < 2 ^ 32) (hDescend : Descends descend) :
    (readTarget ctx root descend path slot opened room).Safe s fun _ _ => True := by
  have hOffset := ResourceSlot.offset_lt slot.target
  rw [readTarget]
  split
  · exact hDescend _ _ _ _ _ h hOffset
  · exact safe_readLeaf h hRoot hOffset

theorem safe_proceed {others : List Nat → Nat → ImageScan Flattened} {room : Nat}
    {first : Flattened} (h : s.reader.Sound)
    (hOthers : ∀ opened room, (others opened room).Safe s fun _ _ => True) :
    (proceed others room first).Safe s fun _ _ => True := by
  rw [proceed]
  split
  · refine (hOthers _ _).bind ?_
    intro _ s₁ h₁ _
    exact .pure h₁.sound True.intro
  · exact .pure h True.intro

theorem safe_flattenSlots
    {descend : List ResourceId → Nat → List Nat → Nat → ImageScan Flattened}
    {path : List ResourceId} {slots : List ResourceSlot} {opened : List Nat} {room : Nat}
    (h : s.reader.Sound) (hRoot : root < 2 ^ 32) (hDescend : Descends descend) :
    (flattenSlots ctx root descend path slots opened room).Safe s fun _ _ => True := by
  induction slots generalizing s opened room with
  | nil => exact .pure h True.intro
  | cons slot rest ih =>
      rw [flattenSlots_cons]
      refine (safe_readId h hRoot).bind ?_
      intro id s₁ h₁ _
      refine (safe_readTarget h₁.sound hRoot hDescend).bind ?_
      intro first s₂ h₂ _
      exact safe_proceed h₂.sound fun _ _ => ih h₂.sound

theorem descends_flatten (hRoot : root < 2 ^ 32) (levels : Nat) :
    Descends (flatten ctx root levels) := by
  induction levels with
  | zero =>
      intro s path offset opened room h _
      refine (Scan.safe_emit h).bind ?_
      intro _ s₁ h₁ _
      exact .pure h₁.sound True.intro
  | succ levels ih =>
      intro s path offset opened room h hOffset
      rw [flatten]
      split
      · refine (Scan.safe_emit h).bind ?_
        intro _ s₁ h₁ _
        exact .pure h₁.sound True.intro
      · refine (safe_readSlots h hRoot hOffset).bind ?_
        intro slots s₁ h₁ _
        exact safe_flattenSlots h₁.sound hRoot ih

theorem safe_read (h : s.reader.Sound) (hPosition : s.reader.position < 2 ^ 32) :
    (read ctx).Safe s fun _ _ => True := by
  refine Scan.safe_reader_bind ?_
  refine (descends_flatten hPosition _ _ _ _ _ _ h (by decide)).bind ?_
  intro found s₁ h₁ _
  refine (Scan.safe_emit h₁.sound).bind ?_
  intro _ s₂ h₂ _
  exact .pure h₂.sound True.intro

end Resource
end PortableExecutable
