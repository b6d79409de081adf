import PortableExecutable.Import
import PortableExecutable.Proofs.Coupling.Directory
import PortableExecutable.Proofs.Resource

/-!
The imports and the resources under a coupling. Both attempt reads and go on after any error, so an
error that does not count would be lost here. They respect the couplings that let off no error.
-/

namespace PortableExecutable

open Coupling

variable {C : Coupling} {ctx : Context}

namespace Coupling

variable {ε α β : Type} [Caused ε]

/-- Every error of the first run counts. -/
def Recovers (C : Coupling) : Prop := ∀ e, ¬ C.Excused (.error e)

theorem Agrees.attempt (recovers : C.Recovers) {act₁ act₂ : Read α} (h : C.Agrees act₁ act₂) :
    C.Agrees (Scan.attempt act₁ : Scan ε (Except ReadError α)) (Scan.attempt act₂) := by
  rw [← bind_pure (Scan.attempt act₁ : Scan ε _), ← bind_pure (Scan.attempt act₂ : Scan ε _)]
  exact h.attempt_bind (fun _ => agrees_pure) fun e excused => absurd excused (recovers e)

end Coupling

namespace Import

theorem respects_readThunk (lawful : C.Lawful) {width offset : Nat} :
    (readThunk width offset).Respects C := by
  rw [readThunk]
  split
  · exact (respects_recordAt lawful).reading.bind fun _ => agrees_pure
  · exact (respects_recordAt lawful).reading.bind fun _ => agrees_pure

theorem respects_readNameRecord (lawful : C.Lawful) (recovers : C.Recovers) {rva : Nat} :
    (readNameRecord ctx rva).Respects C := by
  refine (Context.respects_translateRva lawful).bind fun offset? => ?_
  cases offset? with
  | none => exact (respects_emit lawful).bind fun _ => agrees_pure
  | some offset =>
      refine ((respects_recordAt lawful).attempt recovers).bind fun hint => ?_
      cases hint with
      | error _ => exact agrees_pure
      | ok hint =>
          refine agrees_sum.bind fun _ => ?_
          exact ((respects_stringAt lawful).attempt recovers).bind fun _ => agrees_pure

theorem respects_readEntry (lawful : C.Lawful) (recovers : C.Recovers) {thunk : Nat}
    {slotAddress : UInt64} : (readEntry ctx thunk slotAddress).Respects C := by
  rw [readEntry]
  split
  · exact agrees_pure
  · exact (respects_readNameRecord lawful recovers).bind fun _ => agrees_pure

theorem respects_readEntries (lawful : C.Lawful) (recovers : C.Recovers) {d : ImportDescriptor}
    {table room index : Nat} : (readEntries ctx d table room index).Respects C := by
  induction room generalizing index with
  | zero => exact agrees_pure
  | succ room ih =>
      refine agrees_sum.bind fun _ => (respects_readThunk lawful).bind fun thunk => ?_
      split
      · exact agrees_pure
      · exact (respects_readEntry lawful recovers).bind fun _ => ih.bind fun _ => agrees_pure

theorem respects_readLookupTable (lawful : C.Lawful) (recovers : C.Recovers)
    {d : ImportDescriptor} {room : Nat} : (readLookupTable ctx d room).Respects C := by
  rw [readLookupTable]
  split
  · exact agrees_pure
  · exact (Context.respects_requireRva lawful).bind fun _ => respects_readEntries lawful recovers

theorem respects_readDescriptors (lawful : C.Lawful) (recovers : C.Recovers)
    {slots total : Nat} : (readDescriptors ctx slots total).Respects C := by
  induction slots generalizing total with
  | zero => exact agrees_fault
  | succ slots ih =>
      refine (respects_record lawful).reading.bind fun r => ?_
      dsimp only
      split
      · exact agrees_pure
      · split
        · exact (respects_emit lawful).bind fun _ => ih
        · refine (Context.respects_stringAtRva lawful).bind fun _ => ?_
          refine (respects_readLookupTable lawful recovers).bind fun _ => ?_
          refine agrees_sum.bind fun _ => ?_
          split
          · exact (respects_emit lawful).bind fun _ => agrees_pure
          · exact ih.bind fun _ => agrees_pure

theorem respects_read (lawful : C.Lawful) (recovers : C.Recovers) : (read ctx).Respects C := by
  refine agrees_reader_bind lawful fun r₁ r₂ hContent hPosition => ?_
  have hSlots : slotsLeft r₁ = slotsLeft r₂ := by
    rw [slotsLeft, slotsLeft, Reader.size_eq, Reader.size_eq, hContent, hPosition]
  rw [hSlots]
  exact (respects_readDescriptors lawful recovers).bind fun _ =>
    (respects_emit lawful).bind fun _ => agrees_pure

end Import

namespace Resource

theorem respects_readName (lawful : C.Lawful) (recovers : C.Recovers) {root offset : Nat} :
    (readName ctx root offset).Respects C := by
  refine agrees_sum.bind fun place => ?_
  refine ((respects_recordAt lawful).attempt recovers).bind fun header => ?_
  cases header with
  | error _ => exact agrees_pure
  | ok header =>
      refine agrees_sum.bind fun _ => ?_
      refine ((respects_recordAt lawful).attempt recovers).bind fun units => ?_
      cases units with
      | ok units => exact agrees_pure
      | error _ => exact (respects_emit lawful).bind fun _ => agrees_pure

theorem respects_readId (lawful : C.Lawful) (recovers : C.Recovers) {root : Nat}
    {slot : ResourceSlot} : (readId ctx root slot).Respects C := by
  rw [readId]
  split
  · exact respects_readName lawful recovers
  · exact agrees_pure

theorem respects_readSlots (lawful : C.Lawful) {root offset : Nat} :
    (readSlots root offset).Respects C := by
  refine agrees_sum.bind fun _ => (respects_recordAt lawful).reading.bind fun _ => ?_
  exact agrees_sum.bind fun _ => (respects_recordAt lawful).reading.bind fun _ => agrees_pure

theorem respects_readLeaf (lawful : C.Lawful) {root offset room : Nat}
    {path : List ResourceId} {opened : List Nat} :
    (readLeaf ctx root path offset opened room).Respects C := by
  rw [readLeaf]
  split
  · exact (respects_emit lawful).bind fun _ => agrees_pure
  · refine agrees_sum.bind fun _ => ?_
    exact (respects_recordAt lawful).reading.bind fun _ => agrees_pure

theorem respects_readTarget (lawful : C.Lawful) {root : Nat}
    {descend : List ResourceId → Nat → List Nat → Nat → ImageScan Flattened}
    (descends : ∀ path offset opened room, (descend path offset opened room).Respects C)
    {path : List ResourceId} {slot : ResourceSlot} {opened : List Nat} {room : Nat} :
    (readTarget ctx root descend path slot opened room).Respects C := by
  rw [readTarget]
  split
  · exact descends _ _ _ _
  · exact respects_readLeaf lawful

theorem respects_proceed {others : List Nat → Nat → ImageScan Flattened} {room : Nat}
    {first : Flattened} (hOthers : ∀ opened room, (others opened room).Respects C) :
    (proceed others room first).Respects C := by
  rw [proceed]
  split
  · exact (hOthers _ _).bind fun _ => agrees_pure
  · exact agrees_pure

theorem respects_flattenSlots (lawful : C.Lawful) (recovers : C.Recovers) {root : Nat}
    {descend : List ResourceId → Nat → List Nat → Nat → ImageScan Flattened}
    (descends : ∀ path offset opened room, (descend path offset opened room).Respects C)
    {path : List ResourceId} {slots : List ResourceSlot} {opened : List Nat} {room : Nat} :
    (flattenSlots ctx root descend path slots opened room).Respects C := by
  induction slots generalizing opened room with
  | nil => exact agrees_pure
  | cons slot rest ih =>
      rw [flattenSlots_cons]
      refine (respects_readId lawful recovers).bind fun id => ?_
      exact (respects_readTarget lawful descends).bind fun first =>
        respects_proceed fun _ _ => ih

theorem respects_flatten (lawful : C.Lawful) (recovers : C.Recovers) {root levels : Nat}
    (path : List ResourceId) (offset : Nat) (opened : List Nat) (room : Nat) :
    (flatten ctx root levels path offset opened room).Respects C := by
  induction levels generalizing path offset opened room with
  | zero => exact (respects_emit lawful).bind fun _ => agrees_pure
  | succ levels ih =>
      rw [flatten]
      split
      · exact (respects_emit lawful).bind fun _ => agrees_pure
      · exact (respects_readSlots lawful).bind fun _ => respects_flattenSlots lawful recovers ih

theorem respects_read (lawful : C.Lawful) (recovers : C.Recovers) : (read ctx).Respects C := by
  refine agrees_reader_bind lawful fun r₁ r₂ _ hPosition => ?_
  dsimp only
  rw [hPosition]
  exact (respects_flatten lawful recovers _ _ _ _).bind fun _ =>
    (respects_emit lawful).bind fun _ => agrees_pure

end Resource
end PortableExecutable
