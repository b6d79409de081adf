import PortableExecutable.Certificate
import PortableExecutable.Export
import PortableExecutable.Import
import PortableExecutable.Proofs.Budget.Costs
import PortableExecutable.Proofs.Stored
import PortableExecutable.Proofs.Tls
import PortableExecutable.Relocation

/-!
What reading a directory costs at most. Where the directory declares its size, that is the bound;
elsewhere the caps of the options and the size of the file bound the entries, and each entry has its
price. A budget for the largest directory refuses nothing of a smaller one.
-/

namespace PortableExecutable

open Scan ImageScan

variable {ctx : Context} {s : Session}

namespace Relocation

/-- The blocks fill what remains. The header of one that does not fit may reach over the end. -/
theorem costs_readBlocks {offset remaining : Nat} :
    ImageScan.Costs (remaining + 8) (readBlocks offset remaining) s fun _ _ => True := by
  induction remaining using Nat.strongRecOn generalizing offset s with
  | ind remaining ih =>
    rw [readBlocks]
    split
    case isTrue => exact costs_pure trivial
    case isFalse =>
      refine (costs_recordAt.bind (n := remaining) fun header s₁ _ _ => ?_).le (by omega)
      dsimp only
      split
      case isTrue => exact costs_fail (ImageError.not_isRefusal rfl)
      case isFalse sound =>
        refine costs_sum_bind ?_
        refine (costs_recordAt.bind (n := remaining - (header.u32 4).toNat + 8)
          fun entries s₂ _ _ => ?_).le (by simp only [deduct]; omega)
        refine costs_sum_bind ?_
        exact (ih (remaining - (header.u32 4).toNat) (by omega)).bind (n := 0)
          fun _ _ _ _ => costs_pure trivial

theorem costs_read :
    ImageScan.Costs (ctx.headers.declaredSize 5 + 8) (read ctx) s fun _ _ => True := by
  refine costs_reader_bind ?_
  exact costs_readBlocks.bind (n := 0) fun _ _ _ _ =>
    costs_emit_bind rfl fun _ _ => costs_pure trivial

end Relocation

namespace Certificate

theorem costs_enter : ImageScan.Costs 0 (enter ctx) s fun _ _ => True := by
  refine Context.costs_presentDirectory.free_bind fun d? s₁ _ _ => ?_
  cases d? with
  | none => exact costs_pure trivial
  | some d =>
      refine costs_attempt_seek.free_bind fun sought s₂ _ _ => ?_
      cases sought with
      | ok _ => exact costs_pure trivial
      | error _ => exact costs_emit_bind rfl fun _ _ => costs_pure trivial

theorem costs_readHeader? {offset : Nat} :
    ImageScan.Costs 8 (readHeader? offset) s fun _ _ => True := by
  refine costs_attempt_recordAt.bind (n := 0) fun found s₁ _ hFound => ?_
  split
  · exact costs_pure trivial
  · exact costs_emit_bind rfl fun _ _ => costs_pure trivial
  · refine costs_fail ?_
    rintro ⟨_, ⟨⟩, refusal⟩
    exact hFound _ rfl refusal

theorem costs_readMany {offset remaining : Nat} :
    ImageScan.Costs remaining (readMany offset remaining) s fun _ _ => True := by
  induction remaining using Nat.strongRecOn generalizing offset s with
  | ind remaining ih =>
    rw [readMany]
    split
    case isTrue => exact costs_pure trivial
    case isFalse more =>
      refine (costs_readHeader?.bind (n := remaining - 8) fun header? s₁ _ _ => ?_).le (by omega)
      cases header? with
      | none => exact costs_pure trivial
      | some header =>
          dsimp only
          split
          case isTrue => exact costs_emit_bind rfl fun _ _ => costs_pure trivial
          case isFalse =>
            split
            case isTrue => exact costs_fail (ImageError.not_isRefusal rfl)
            case isFalse sound =>
              refine costs_sum_bind ?_
              refine (costs_recordAt.bind (n := remaining - (header.u32 0).toNat)
                fun data s₂ _ _ => ?_).le (by simp only [deduct]; omega)
              refine costs_sum_bind (costs_sum_bind ?_)
              refine (Costs.bind (n := 0) (ih _ ?_) fun _ _ _ _ => costs_pure trivial).le ?_
              all_goals
                simp only [deduct]
                omega

theorem costs_read :
    ImageScan.Costs (ctx.headers.declaredSize 4) (read ctx) s fun _ _ => True := by
  refine costs_reader_bind ?_
  exact costs_readMany.bind (n := 0) fun _ _ _ _ =>
    costs_emit_bind rfl fun _ _ => costs_pure trivial

end Certificate

namespace Tls

theorem costs_readFixed32 : ImageScan.Costs 24 readFixed32 s fun _ _ => True := by
  have word {s : Session} : ImageScan.Costs 4 readWord32 s fun _ _ => True :=
    costs_word32.bind (n := 0) fun _ _ _ _ => costs_pure trivial
  refine word.bind (n := 20) fun _ s₁ _ _ => ?_
  refine word.bind (n := 16) fun _ s₂ _ _ => ?_
  refine word.bind (n := 12) fun _ s₃ _ _ => ?_
  refine word.bind (n := 8) fun _ s₄ _ _ => ?_
  exact costs_record.bind (n := 0) fun _ _ _ _ => costs_pure trivial

theorem costs_readFixed64 : ImageScan.Costs 40 readFixed64 s fun _ _ => True :=
  costs_record.bind (n := 0) fun _ _ _ _ => costs_pure trivial

theorem costs_readPointer? :
    ImageScan.Costs ctx.headers.pointerWidth (readPointer? ctx) s fun _ _ => True := by
  refine (costs_io Read.costs_chunk).bind (n := 0) fun chunk s₁ _ _ => ?_
  split
  · exact costs_pure trivial
  · exact costs_pure trivial

theorem costs_readCallbacks {room known : Nat} :
    ImageScan.Costs (room * ctx.headers.pointerWidth) (readCallbacks ctx room known) s
      fun _ _ => True := by
  induction room generalizing s known with
  | zero => exact costs_emit_bind rfl fun _ _ => costs_pure trivial
  | succ room ih =>
      rw [Nat.succ_mul, Nat.add_comm]
      refine costs_readPointer?.bind fun callback? s₁ _ _ => ?_
      cases callback? with
      | none => exact costs_emit_bind rfl fun _ _ => costs_pure trivial
      | some callback =>
          dsimp only
          split
          · exact costs_pure trivial
          · exact ih.bind (n := 0) fun _ _ _ _ => costs_pure trivial

theorem costs_readFixed {headers : Headers} :
    ImageScan.Costs 40 (readFixed headers) s fun _ _ => True := by
  rw [readFixed]
  split
  · exact costs_readFixed64
  · exact costs_readFixed32.le (by decide)

/-- A directory, and as many callbacks as are read at most. -/
theorem costs_read :
    ImageScan.Costs (40 + ctx.options.maxTlsCallbacks.toNat * ctx.headers.pointerWidth) (read ctx) s
      fun _ _ => True := by
  rw [read_eq]
  refine costs_readFixed.bind fun record s₁ _ _ => ?_
  refine Context.costs_translateVa.free_bind fun table? s₂ _ _ => ?_
  cases table? with
  | none => exact costs_fail (ImageError.not_isRefusal rfl)
  | some table =>
      refine costs_reach.free_bind fun _ s₃ _ _ => ?_
      exact costs_readCallbacks.bind (n := 0) fun _ _ _ _ =>
        costs_emit_bind rfl fun _ _ => costs_pure trivial

end Tls

namespace Export

theorem costs_requireAtMost {piece : Piece} {count : UInt32} {limit : Nat} :
    ImageScan.Costs 0 (requireAtMost piece count limit) s fun _ _ => count.toNat ≤ limit := by
  rw [requireAtMost]
  split
  case isTrue => exact costs_fail (ImageError.not_isRefusal rfl)
  case isFalse within => exact costs_pure (Nat.le_of_not_lt within)

theorem costs_readFunctions {bounds : DataDirectory} {ordinal : UInt32} {addresses : List UInt32} :
    ImageScan.Costs (addresses.length * ctx.maxStringLength)
      (readFunctions ctx bounds ordinal addresses) s fun _ _ => True := by
  induction addresses generalizing s ordinal with
  | nil => exact costs_pure trivial
  | cons address rest ih =>
      rw [readFunctions, List.length_cons, Nat.succ_mul, Nat.add_comm]
      split
      case isTrue =>
        have forwarded : ImageScan.Costs ctx.maxStringLength
            (some <$> ctx.stringAtRva .exportForwarder address) s fun _ _ => True :=
          Costs.map Context.costs_stringAtRva
        refine forwarded.bind fun _ s₁ _ _ => ?_
        exact ih.bind (n := 0) fun _ _ _ _ => costs_pure trivial
      case isFalse =>
        rw [pure_bind]
        exact (ih.bind (n := 0) fun _ _ _ _ => costs_pure trivial).le (Nat.le_add_left _ _)

theorem costs_readAddressTable {bounds : DataDirectory} {d : ExportDirectory} :
    ImageScan.Costs (d.numberOfFunctions.toNat * (4 + ctx.maxStringLength))
      (readAddressTable ctx bounds d) s fun _ _ => True := by
  rw [readAddressTable, Nat.mul_add]
  split
  case isTrue => exact costs_pure trivial
  case isFalse =>
    refine Context.costs_requireRva.free_bind fun table s₁ _ _ => ?_
    refine costs_recordAt.bind fun addresses s₂ _ _ => ?_
    exact costs_readFunctions.le (Nat.le_of_eq (by rw [addresses.length_table32]))

theorem costs_readNames {names : List (UInt32 × UInt16)} {functions : Array ExportedFunction} :
    ImageScan.Costs (names.length * ctx.maxStringLength) (readNames ctx names functions) s
      fun _ _ => True := by
  induction names generalizing s functions with
  | nil => exact costs_pure trivial
  | cons name rest ih =>
      rw [readNames, List.length_cons, Nat.succ_mul, Nat.add_comm]
      split
      case isTrue => exact Context.costs_stringAtRva.bind fun _ _ _ _ => ih
      case isFalse => exact costs_fail (ImageError.not_isRefusal rfl)

theorem costs_readNameTables {d : ExportDirectory} {functions : Array ExportedFunction} :
    ImageScan.Costs (d.numberOfNames.toNat * (6 + ctx.maxStringLength))
      (readNameTables ctx d functions) s fun _ _ => True := by
  rw [readNameTables]
  split
  case isTrue => exact costs_pure trivial
  case isFalse =>
    have hCosts : d.numberOfNames.toNat * 4 + (d.numberOfNames.toNat * 2 +
        d.numberOfNames.toNat * ctx.maxStringLength) =
          d.numberOfNames.toNat * (6 + ctx.maxStringLength) := by
      rw [Nat.mul_add]
      omega
    rw [← hCosts]
    refine Context.costs_requireRva.free_bind fun nameTable s₁ _ _ => ?_
    refine Context.costs_requireRva.free_bind fun ordinalTable s₂ _ _ => ?_
    refine costs_recordAt.bind fun names s₃ _ _ => ?_
    refine costs_recordAt.bind fun indices s₄ _ _ => ?_
    refine costs_readNames.le (Nat.mul_le_mul_right _ ?_)
    rw [List.length_zip, names.length_table32]
    exact Nat.min_le_left _ _

/-- A directory and its name, and as many functions and names as are read at most. -/
def largestCost (ctx : Context) : Nat :=
  40 + ctx.maxStringLength + ctx.options.maxExports.toNat * (4 + ctx.maxStringLength) +
    ctx.options.maxExports.toNat * (6 + ctx.maxStringLength)

theorem costs_read : ImageScan.Costs (largestCost ctx) (read ctx) s fun _ _ => True := by
  have hCosts : 40 + (ctx.maxStringLength +
      (ctx.options.maxExports.toNat * (4 + ctx.maxStringLength) +
        ctx.options.maxExports.toNat * (6 + ctx.maxStringLength))) = largestCost ctx := by
    rw [largestCost]
    omega
  rw [← hCosts]
  refine costs_record.bind fun r s₁ _ _ => ?_
  refine costs_requireAtMost.free_bind fun _ s₂ _ hFunctions => ?_
  refine costs_requireAtMost.free_bind fun _ s₃ _ hNames => ?_
  refine Context.costs_stringAtRva.bind fun name s₄ _ _ => ?_
  refine (costs_readAddressTable.le (Nat.mul_le_mul_right _ hFunctions)).bind
    fun unnamed s₅ _ _ => ?_
  refine Costs.bind (n := 0) (costs_readNameTables.le (Nat.mul_le_mul_right _ hNames))
    fun functions s₆ _ _ => ?_
  exact costs_emit_bind rfl fun _ _ => costs_pure trivial

end Export

namespace Import

/-- A thunk, and the hint and the name that it leads to. -/
def entryCost (ctx : Context) : Nat := 10 + ctx.maxStringLength

/-- A descriptor with the name of its library, and the thunk that ends its table. -/
def descriptorCost (ctx : Context) : Nat := 28 + ctx.maxStringLength

theorem costs_readThunk {width offset : Nat} :
    ImageScan.Costs 8 (readThunk width offset) s fun _ _ => True := by
  rw [readThunk]
  split
  · exact costs_recordAt.bind (n := 0) fun _ _ _ _ => costs_pure trivial
  · exact (costs_recordAt.bind (n := 0) fun _ _ _ _ => costs_pure trivial).le (by decide)

theorem costs_readNameRecord {rva : Nat} :
    ImageScan.Costs (2 + ctx.maxStringLength) (readNameRecord ctx rva) s fun _ _ => True := by
  refine Context.costs_translateRva.free_bind fun offset? s₁ _ _ => ?_
  cases offset? with
  | none => exact costs_emit_bind rfl fun _ _ => costs_pure trivial
  | some offset =>
      refine costs_attempt_recordAt.bind fun hint s₂ _ _ => ?_
      cases hint with
      | error _ => exact costs_pure trivial
      | ok hint =>
          refine costs_sum_bind ?_
          exact costs_attempt_stringAt.bind (n := 0) fun _ _ _ _ => costs_pure trivial

theorem costs_readEntry {thunk : Nat} {slotAddress : UInt64} :
    ImageScan.Costs (2 + ctx.maxStringLength) (readEntry ctx thunk slotAddress) s
      fun _ _ => True := by
  rw [readEntry]
  split
  · exact costs_pure trivial
  · exact costs_readNameRecord.bind (n := 0) fun _ _ _ _ => costs_pure trivial

/-- What is spent depends on the entries that are found, and on the thunk that ends them. -/
theorem costs_readEntries {d : ImportDescriptor} {table room index : Nat} :
    ImageScan.Costs (room * entryCost ctx) (readEntries ctx d table room index) s
      fun entries s' => entries.length ≤ room ∧
        s'.reader.bytesRead ≤ s.reader.bytesRead + entries.length * entryCost ctx + 8 := by
  induction room generalizing s index with
  | zero => exact costs_pure ⟨Nat.le_refl 0, by omega⟩
  | succ room ih =>
      have hEntry : entryCost ctx = 10 + ctx.maxStringLength := rfl
      have hCosts : 8 + (2 + ctx.maxStringLength + room * entryCost ctx) =
          (room + 1) * entryCost ctx := by
        rw [Nat.succ_mul]
        omega
      rw [← hCosts]
      refine costs_sum_bind ?_
      refine costs_readThunk.bind fun thunk s₁ h₁ _ => ?_
      have hThunk := h₁.bytesRead_le
      split
      · exact costs_pure ⟨Nat.zero_le _, by rw [List.length_nil]; omega⟩
      · refine costs_readEntry.bind fun entry s₂ h₂ _ => ?_
        refine Costs.bind (n := 0) ih fun rest s₃ _ hRest => costs_pure ?_
        have hSpent := h₂.bytesRead_le
        obtain ⟨hLength, hOthers⟩ := hRest
        rw [List.length_cons, Nat.succ_mul]
        exact ⟨Nat.succ_le_succ hLength, by omega⟩

theorem costs_readLookupTable {d : ImportDescriptor} {room : Nat} :
    ImageScan.Costs (room * entryCost ctx) (readLookupTable ctx d room) s
      fun entries s' => entries.length ≤ room ∧
        s'.reader.bytesRead ≤ s.reader.bytesRead + entries.length * entryCost ctx + 8 := by
  rw [readLookupTable]
  split
  · exact costs_pure ⟨Nat.zero_le _, by rw [List.length_nil]; omega⟩
  · refine Context.costs_requireRva.free_bind fun table s₁ h₁ _ => ?_
    have hSpent := h₁.bytesRead_le
    exact costs_readEntries.mono fun entries s₂ _ hEntries => ⟨hEntries.1, by omega⟩

/-- Every slot has its price, and the entries of all descriptors share what the cap leaves. -/
theorem costs_readDescriptors {slots total : Nat} :
    ImageScan.Costs
      (slots * descriptorCost ctx + (ctx.options.maxImports.toNat - total) * entryCost ctx)
      (readDescriptors ctx slots total) s fun _ _ => True := by
  induction slots generalizing s total with
  | zero => exact costs_fault
  | succ slots ih =>
      have hDescriptor : descriptorCost ctx = 28 + ctx.maxStringLength := rfl
      have hCosts : 20 + (ctx.maxStringLength + (8 + slots * descriptorCost ctx +
          (ctx.options.maxImports.toNat - total) * entryCost ctx)) =
            (slots + 1) * descriptorCost ctx +
              (ctx.options.maxImports.toNat - total) * entryCost ctx := by
        rw [Nat.succ_mul]
        omega
      rw [← hCosts]
      refine costs_record.bind fun r s₁ _ _ => ?_
      dsimp only
      split
      case isTrue => exact costs_pure trivial
      case isFalse =>
        split
        case isTrue => exact costs_emit_bind rfl fun s₂ _ => ih.le (by omega)
        case isFalse =>
          refine Context.costs_stringAtRva.bind fun library s₂ _ _ => ?_
          refine Costs.bind_rest (costs_readLookupTable.le (by omega))
            fun entries s₃ h₃ hEntries => ?_
          obtain ⟨hLength, hSpent⟩ := hEntries
          have hShared : (ctx.options.maxImports.toNat - (total + entries.length)) * entryCost ctx +
              entries.length * entryCost ctx =
                (ctx.options.maxImports.toNat - total) * entryCost ctx := by
            rw [← Nat.add_mul]
            congr 1
            omega
          refine ⟨slots * descriptorCost ctx +
            (ctx.options.maxImports.toNat - (total + entries.length)) * entryCost ctx,
            by omega, costs_sum_bind ?_⟩
          split
          · exact costs_emit_bind rfl fun _ _ => costs_pure trivial
          · exact ih.bind (n := 0) fun _ _ _ _ => costs_pure trivial

/-- As many descriptors as fit behind the cursor, and as many entries as are read at most. -/
theorem costs_read :
    ImageScan.Costs (slotsLeft s.reader * descriptorCost ctx +
      ctx.options.maxImports.toNat * entryCost ctx) (read ctx) s fun _ _ => True := by
  have descriptors : ImageScan.Costs (slotsLeft s.reader * descriptorCost ctx +
      (ctx.options.maxImports.toNat - 0) * entryCost ctx)
      (readDescriptors ctx (slotsLeft s.reader) 0) s fun _ _ => True := costs_readDescriptors
  refine costs_reader_bind ?_
  refine descriptors.bind (n := 0) fun _ s₁ _ _ => ?_
  exact costs_emit_bind rfl fun _ _ => costs_pure trivial

end Import

end PortableExecutable
