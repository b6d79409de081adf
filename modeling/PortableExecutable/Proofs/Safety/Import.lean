import PortableExecutable.Import
import PortableExecutable.Proofs.Safety.Directory

/-!
Safety of the import directory. Three bounds carry it. A thunk that was read lies in the file, so
the place of the next one is still a 64-bit number. A table has no more entries than there was room
for, so their number stays under its cap. And each descriptor takes its bytes from what is left of
the file while the tables it points to leave the cursor alone, so the slots do not run out.
-/

namespace PortableExecutable

theorem Headers.pointerWidth_eq_or (headers : Headers) :
    headers.pointerWidth = 4 ∨ headers.pointerWidth = 8 := by
  rw [Headers.pointerWidth, OptionalHeader.pointerWidth]
  split
  · exact .inr rfl
  · exact .inl rfl

namespace Import

variable {s : Session} {ctx : Context}

theorem safe_readThunk {width offset : Nat} (h : s.reader.Sound)
    (hWidth : width = 4 ∨ width = 8) :
    (readThunk width offset).Safe s fun _ s' => offset + width ≤ s'.reader.size := by
  rw [readThunk]
  split
  case isTrue wide =>
    refine (ImageScan.safe_reading (Read.safe_recordAt h)).bind ?_
    intro _ s₁ h₁ hRecord
    exact .pure h₁.sound (by omega)
  case isFalse narrow =>
    refine (ImageScan.safe_reading (Read.safe_recordAt h)).bind ?_
    intro _ s₁ h₁ hRecord
    exact .pure h₁.sound (by omega)

theorem keepsCursor_readThunk {width offset : Nat} : (readThunk width offset).KeepsCursor := by
  rw [readThunk]
  split
  · exact (ImageScan.keepsCursor_reading Read.keepsCursor_recordAt).bind
      fun _ => Scan.keepsCursor_pure
  · exact (ImageScan.keepsCursor_reading Read.keepsCursor_recordAt).bind
      fun _ => Scan.keepsCursor_pure

theorem safe_readNameRecord {rva : Nat} (h : s.reader.Sound) :
    (readNameRecord ctx rva).Safe s fun _ _ => True := by
  refine (Context.safe_translateRva h).bind ?_
  intro offset? s₁ h₁ hPlaced
  cases offset? with
  | none =>
      refine (Scan.safe_emit h₁.sound).bind ?_
      intro _ s₂ h₂ _
      exact .pure h₂.sound True.intro
  | some offset =>
      have hOffset : offset < 2 ^ 32 := hPlaced.2 offset rfl
      have hinted : (Scan.attempt (Read.recordAt offset 2) : ImageScan _).Safe s₁
          fun _ _ => True :=
        (Read.safe_recordAt h₁.sound).weaken.attempt fun _ _ _ => True.intro
      refine hinted.bind ?_
      intro hint s₂ h₂ _
      cases hint with
      | error _ => exact .pure h₂.sound True.intro
      | ok hint =>
          refine Scan.safe_sum_bind (by omega) ?_
          have named : (Scan.attempt (Read.stringAt (offset + 2) ctx.maxStringLength) :
              ImageScan _).Safe s₂ fun _ _ => True :=
            (Read.safe_stringAt h₂.sound).attempt fun _ _ _ => True.intro
          refine named.bind ?_
          intro _ s₃ h₃ _
          exact .pure h₃.sound True.intro

theorem keepsCursor_readNameRecord {rva : Nat} : (readNameRecord ctx rva).KeepsCursor := by
  refine Context.keepsCursor_translateRva.bind ?_
  intro offset?
  cases offset? with
  | none => exact Scan.keepsCursor_emit.bind fun _ => Scan.keepsCursor_pure
  | some offset =>
      refine Read.keepsCursor_recordAt.attempt.bind ?_
      intro hint
      cases hint with
      | error _ => exact Scan.keepsCursor_pure
      | ok hint =>
          exact Scan.keepsCursor_sum.bind fun _ =>
            Read.keepsCursor_stringAt.attempt.bind fun _ => Scan.keepsCursor_pure

theorem safe_readEntry {thunk : Nat} {slotAddress : UInt64} (h : s.reader.Sound) :
    (readEntry ctx thunk slotAddress).Safe s fun _ _ => True := by
  rw [readEntry]
  split
  · exact .pure h True.intro
  · refine (safe_readNameRecord h).bind ?_
    intro _ s₁ h₁ _
    exact .pure h₁.sound True.intro

theorem keepsCursor_readEntry {thunk : Nat} {slotAddress : UInt64} :
    (readEntry ctx thunk slotAddress).KeepsCursor := by
  rw [readEntry]
  split
  · exact Scan.keepsCursor_pure
  · exact keepsCursor_readNameRecord.bind fun _ => Scan.keepsCursor_pure

/-- The place of the next thunk stays in range because the one before it was in the file. -/
theorem safe_readEntries {d : ImportDescriptor} {table room index : Nat} (h : s.reader.Sound)
    (hPlace : table + index * ctx.headers.pointerWidth < 2 ^ 64) :
    (readEntries ctx d table room index).Safe s fun entries _ => entries.length ≤ room := by
  induction room generalizing s index with
  | zero => exact .pure h (Nat.le_refl 0)
  | succ room ih =>
      refine Scan.safe_sum_bind hPlace ?_
      refine (safe_readThunk h ctx.headers.pointerWidth_eq_or).bind ?_
      intro thunk s₁ h₁ hThunk
      split
      · exact .pure h₁.sound (Nat.zero_le _)
      · have hNext : table + (index + 1) * ctx.headers.pointerWidth < 2 ^ 64 := by
          have hSize := h₁.sound.size_lt
          rw [Nat.succ_mul]
          omega
        refine (safe_readEntry h₁.sound).bind ?_
        intro _ s₂ h₂ _
        refine (ih h₂.sound hNext).bind ?_
        intro rest s₃ h₃ hRest
        exact .pure h₃.sound (Nat.succ_le_succ hRest)

theorem keepsCursor_readEntries {d : ImportDescriptor} {table room index : Nat} :
    (readEntries ctx d table room index).KeepsCursor := by
  induction room generalizing index with
  | zero => exact Scan.keepsCursor_pure
  | succ room ih =>
      refine Scan.keepsCursor_sum.bind fun _ => keepsCursor_readThunk.bind fun thunk => ?_
      split
      · exact Scan.keepsCursor_pure
      · exact keepsCursor_readEntry.bind fun _ => ih.bind fun _ => Scan.keepsCursor_pure

theorem safe_readLookupTable {d : ImportDescriptor} {room : Nat} (h : s.reader.Sound) :
    (readLookupTable ctx d room).Safe s fun entries _ => entries.length ≤ room := by
  rw [readLookupTable]
  split
  · exact .pure h (Nat.zero_le room)
  · refine (Context.safe_requireRva h).bind ?_
    intro table s₁ h₁ hTable
    exact safe_readEntries h₁.sound (by omega)

theorem keepsCursor_readLookupTable {d : ImportDescriptor} {room : Nat} :
    (readLookupTable ctx d room).KeepsCursor := by
  rw [readLookupTable]
  split
  · exact Scan.keepsCursor_pure
  · exact Context.keepsCursor_requireRva.bind fun _ => keepsCursor_readEntries

/-- What is left behind the cursor has no room for a descriptor in every slot. -/
def SlotsCover (slots : Nat) (r : Reader) : Prop :=
  r.size - r.position < ImportDescriptor.storedSize * slots

theorem slotsCover_slotsLeft (r : Reader) : SlotsCover (slotsLeft r) r :=
  Nat.lt_mul_div_succ (r.size - r.position) (by decide)

/-- A descriptor that was read leaves room for one less. -/
theorem SlotsCover.after_record {slots : Nat} {r r' : Reader} (h : SlotsCover (slots + 1) r)
    (inside : r'.position ≤ r'.size) (hSize : r'.size = r.size)
    (hMoved : r'.position = r.position + 20) : SlotsCover slots r' := by
  simp only [SlotsCover, ImportDescriptor.storedSize] at h ⊢
  omega

theorem SlotsCover.of_eq {slots : Nat} {r r' : Reader} (h : SlotsCover slots r)
    (hSize : r'.size = r.size) (hPosition : r'.position = r.position) : SlotsCover slots r' := by
  simpa only [SlotsCover, hSize, hPosition] using h

theorem SlotsCover.pos {slots : Nat} {r : Reader} (h : SlotsCover slots r) : 0 < slots := by
  simp only [SlotsCover, ImportDescriptor.storedSize] at h
  omega

theorem safe_readDescriptors {slots total : Nat} (h : s.reader.Sound)
    (hSlots : SlotsCover slots s.reader) (hTotal : total ≤ ctx.options.maxImports.toNat) :
    (readDescriptors ctx slots total).Safe s fun _ _ => True := by
  induction slots generalizing s total with
  | zero => exact absurd hSlots.pos (Nat.lt_irrefl 0)
  | succ slots ih =>
      refine (ImageScan.safe_reading (Read.safe_record h)).bind ?_
      intro r s₁ h₁ hMoved
      have hSlots₁ : SlotsCover slots s₁.reader :=
        hSlots.after_record h₁.sound.position_le h₁.size_eq hMoved
      dsimp only
      split
      · exact .pure h₁.sound True.intro
      · split
        · refine (Scan.safe_emit h₁.sound).bind ?_
          intro _ s₂ h₂ hEmit
          exact ih h₂.sound (hEmit ▸ hSlots₁) hTotal
        · refine ((Context.safe_stringAtRva h₁.sound).keeping
            Context.keepsCursor_stringAtRva).bind ?_
          intro library s₂ h₂ hLibrary
          have hSlots₂ := hSlots₁.of_eq h₂.size_eq hLibrary.2
          refine ((safe_readLookupTable h₂.sound).keeping keepsCursor_readLookupTable).bind ?_
          intro entries s₃ h₃ hEntries
          have hSlots₃ := hSlots₂.of_eq h₃.size_eq hEntries.2
          have hCap := ctx.options.maxImports.toNat_lt
          have hRoom := hEntries.1
          refine Scan.safe_sum_bind (by omega) ?_
          split
          · refine (Scan.safe_emit h₃.sound).bind ?_
            intro _ s₄ h₄ _
            exact .pure h₄.sound True.intro
          · refine (ih h₃.sound hSlots₃ (by omega)).bind ?_
            intro _ s₄ h₄ _
            exact .pure h₄.sound True.intro

theorem safe_read (h : s.reader.Sound) : (read ctx).Safe s fun _ _ => True := by
  refine Scan.safe_reader_bind ?_
  refine (safe_readDescriptors h (slotsCover_slotsLeft _) (Nat.zero_le _)).bind ?_
  intro _ s₁ h₁ _
  refine (Scan.safe_emit h₁.sound).bind ?_
  intro _ s₂ h₂ _
  exact .pure h₂.sound True.intro

end Import
end PortableExecutable
