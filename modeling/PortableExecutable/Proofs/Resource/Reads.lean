import PortableExecutable.Proofs.Reader.ReadsOn
import PortableExecutable.Proofs.Resource.Tree

/-!
What the parts of a resource tree are read as, whatever the state of the reader: the name of a slot,
the slots of a directory, the data of a leaf. Slots and leaves that are read are those of the file.
A name that is not read is replaced by its offset in silence; it is one that the file does not have,
or one that the budget no longer covers.
-/

namespace PortableExecutable

open Layout

/-- The file has the name at a place, as far as names are read. -/
def Context.NameInside (ctx : Context) (content : ByteArray) (place : Nat) : Prop :=
  place + 2 ≤ content.size ∧
    place + 2 + 2 * min (number content place 2) ctx.maxStringLength ≤ content.size

namespace Resource

/-- A slot as it is read. -/
def slotAt (content : ByteArray) (place i : Nat) : ResourceSlot where
  name := UInt32.ofNat (nameWord content place i)
  target := UInt32.ofNat (targetWord content place i)

section Words

variable {content : ByteArray} {place i : Nat} {word : UInt32}

theorem toNat_name_slotAt : (slotAt content place i).name.toNat = nameWord content place i :=
  UInt32.toNat_ofNat_of_lt' (number_lt _ _)

theorem toNat_target_slotAt : (slotAt content place i).target.toNat = targetWord content place i :=
  UInt32.toNat_ofNat_of_lt' (number_lt _ _)

theorem isOffset_iff : ResourceSlot.isOffset word = true ↔ 2 ^ 31 ≤ word.toNat :=
  decide_eq_true_iff

theorem offset_eq : ResourceSlot.offset word = word.toNat % 2 ^ 31 := rfl

end Words

section Called

variable (ctx : Context) (r : Reader) (root : Nat)

/-- What the name at an offset into the tree is read as. -/
inductive NamedBy (offset : Nat) : ResourceId → Prop
  | stored (inside : ctx.NameInside r.content (root + offset)) :
      NamedBy offset (.name (Utf16.decode (ctx.unitsAt r.content (root + offset))))
  | missing (h : ¬ ctx.NameInside r.content (root + offset)) :
      NamedBy offset (.id (UInt32.ofNat offset))
  /-- What is left of the budget in the end covers one of the two reads of a name no more. -/
  | refused (h : ¬ r.Affords 2 ∨
      ¬ r.Affords (2 * min (number r.content (root + offset) 2) ctx.maxStringLength)) :
      NamedBy offset (.id (UInt32.ofNat offset))

/-- What a slot of the directory at an offset is called. -/
def Called (directory i : Nat) (id : ResourceId) : Prop :=
  let word := nameWord r.content (root + directory) i
  if 2 ^ 31 ≤ word then NamedBy ctx r root (word % 2 ^ 31) id else id = .id (UInt32.ofNat word)

/-- The file has all slots of the directory at a place. -/
def SlotsInside (content : ByteArray) (place : Nat) : Prop :=
  place + 16 + 8 * slotCount content place ≤ content.size

end Called

section Later

variable {ctx : Context} {r r' : Reader} {root offset directory i : Nat} {id : ResourceId}

theorem NamedBy.later (h : NamedBy ctx r root offset id) (on : r.ReadsOn r') :
    NamedBy ctx r' root offset id := by
  cases h with
  | stored inside =>
      rw [← on.content_eq] at inside ⊢
      exact .stored inside
  | missing outside =>
      rw [← on.content_eq] at outside
      exact .missing outside
  | refused refused =>
      rw [← on.content_eq] at refused
      exact .refused (refused.imp on.not_affords on.not_affords)

theorem Called.later (h : Called ctx r root directory i id) (on : r.ReadsOn r') :
    Called ctx r' root directory i id := by
  unfold Called at *
  rw [on.content_eq]
  dsimp only at *
  split at h
  case isTrue named => rw [if_pos named]; exact h.later on
  case isFalse numbered => rwa [if_neg numbered]

/-- Under a budget that covers every read a slot is called what the file calls it. -/
theorem Called.eq_idAt (called : Called ctx r root directory i id)
    (inside : 2 ^ 31 ≤ nameWord r.content (root + directory) i →
      ctx.NameInside r.content (root + nameWord r.content (root + directory) i % 2 ^ 31))
    (covered : ∀ length, r.Affords length) : id = idAt r.content root ctx directory i := by
  unfold Called at called
  rw [idAt]
  dsimp only at called ⊢
  split at called
  case isTrue named =>
    rw [if_pos named]
    cases called with
    | stored _ => rfl
    | missing outside => exact absurd (inside named) outside
    | refused refused => exact absurd refused (by simp [covered])
  case isFalse numbered => rw [if_neg numbered, called]

end Later

section Reads

variable {ctx : Context} {root directory i room : Nat} {path : List ResourceId}
  {opened : List Nat} {s : Session}

theorem leads_readName {offset : Nat} :
    (readName ctx root offset).Leads s
      (fun id s' => s.reader.ReadsOn s'.reader ∧ NamedBy ctx s'.reader root offset id)
      fun stop _ => ImageScan.Stops True stop := by
  rw [readName, Scan.leads_bind, Scan.leads_sum]
  split
  case isFalse => rfl
  rw [Scan.leads_bind]
  refine ImageScan.leads_attempt_recordAt fun header s₁ hHeader on => ?_
  have hContent := on.content_eq
  cases header with
  | error e =>
      refine ⟨on, ?_⟩
      obtain outside | ⟨-, refused⟩ := hHeader
      · refine .missing fun inside => outside (.inr ?_)
        rw [← hContent]
        exact inside.1
      · exact .refused (.inl refused)
  | ok header =>
      obtain ⟨hInside, stored⟩ := hHeader.resolve_right nofun
      have hLength := stored.toNat_u16 (i := 0) rfl
      rw [Nat.add_zero, ← hContent] at hLength
      dsimp only
      rw [hLength, Scan.leads_bind, Scan.leads_sum]
      split
      case isFalse => rfl
      rw [Scan.leads_bind]
      refine ImageScan.leads_attempt_recordAt fun units s₂ hUnits on' => ?_
      have hContent' := on'.content_eq
      rw [← hContent] at hInside
      cases units with
      | ok units =>
          obtain ⟨hEnd, stored'⟩ := hUnits.resolve_right nofun
          have named : NamedBy ctx s₂.reader root offset _ :=
            .stored (by rw [hContent']; exact ⟨by omega, by omega⟩)
          rw [hContent', Context.unitsAt, ← stored'.table16_eq] at named
          exact ⟨on.trans on', named⟩
      | error e =>
          refine ⟨on.trans on', ?_⟩
          obtain outside | ⟨-, refused⟩ := hUnits
          · refine .missing fun inside => outside (.inr ?_)
            rw [hContent'] at inside
            rw [Nat.mul_comm]
            exact inside.2
          · rw [Nat.mul_comm, ← hContent'] at refused
            exact .refused (.inr refused)

theorem leads_readId :
    (readId ctx root (slotAt s.reader.content (root + directory) i)).Leads s
      (fun id s' => s.reader.ReadsOn s'.reader ∧ Called ctx s'.reader root directory i id)
      fun stop _ => ImageScan.Stops True stop := by
  simp only [readId, isOffset_iff, offset_eq, toNat_name_slotAt]
  split
  case isTrue named =>
    refine leads_readName.mono (fun id s' hName => ⟨hName.1, ?_⟩) fun _ _ hStop => hStop
    rw [Called, hName.1.content_eq, if_pos named]
    exact hName.2
  case isFalse numbered =>
    refine ⟨.refl _, ?_⟩
    rw [Called, if_neg numbered]
    rfl

theorem leads_readSlots :
    (readSlots root directory).Leads s
      (fun slots s' => s.reader.ReadsOn s'.reader ∧
        SlotsInside s.reader.content (root + directory) ∧
        slots = (List.range (slotCount s.reader.content (root + directory))).map
          (slotAt s.reader.content (root + directory)))
      fun stop _ => ImageScan.Stops (SlotsInside s.reader.content (root + directory)) stop := by
  rw [readSlots, Scan.leads_bind, Scan.leads_sum]
  split
  case isFalse => rfl
  rw [Scan.leads_bind]
  refine ImageScan.leads_reading_recordAt (fun inside => ?_) fun header log stored hHeader => ?_
  · rw [SlotsInside] at inside
    omega
  have hCount : (header.u16 12).toNat + (header.u16 14).toNat =
      slotCount s.reader.content (root + directory) := by
    rw [stored.toNat_u16, stored.toNat_u16]
    rfl
  dsimp only
  rw [Scan.leads_bind, Scan.leads_sum]
  split
  case isFalse => rfl
  rw [Scan.leads_bind]
  refine ImageScan.leads_reading_recordAt (fun inside => ?_) fun slots log' stored' inside => ?_
  · rw [SlotsInside] at inside
    rw [hCount]
    simp only [Reader.charged, Reader.moved_content]
    omega
  have on : s.reader.ReadsOn ((s.reader.charged 16).charged
      (((header.u16 12).toNat + (header.u16 14).toNat) * 8)) :=
    (Reader.ReadsOn.charged _ _).trans (.charged _ _)
  refine ⟨on, ?_, ?_⟩
  · rw [hCount] at inside
    rw [SlotsInside]
    simp only [Reader.charged, Reader.moved_content] at inside
    omega
  · rw [stored'.pairs32_eq, List.map_map, hCount]
    rfl

/-- A leaf is read where there is room, and the file has it then. -/
theorem leads_readLeaf {offset : Nat} :
    (readLeaf ctx root path offset opened room).Leads s
      (fun found s' => s.reader.ReadsOn s'.reader ∧ (room = 0 ∧ found = ⟨opened, [], false⟩ ∨
        root + offset + 16 ≤ s.reader.content.size ∧
          found = ⟨opened, [leafAt s.reader.content path (root + offset)], true⟩))
      fun stop _ => ImageScan.Stops (root + offset + 16 ≤ s.reader.content.size) stop := by
  rw [readLeaf, Scan.leads_ite]
  split
  case isTrue full => exact ⟨.refl _, .inl ⟨full, rfl⟩⟩
  case isFalse =>
    rw [Scan.leads_bind, Scan.leads_sum]
    split
    case isFalse => rfl
    rw [Scan.leads_bind]
    refine ImageScan.leads_reading_recordAt .inr fun r log stored inside => ?_
    refine ⟨.charged _ _, .inr ⟨by omega, ?_⟩⟩
    simp only [ResourceEntry.ofRecord, stored.u32_eq, leafAt]

end Reads

end Resource
end PortableExecutable
