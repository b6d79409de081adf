import PortableExecutable.Certificate
import PortableExecutable.Debug
import PortableExecutable.Export
import PortableExecutable.Relocation
import PortableExecutable.Proofs.Coupling.Directory
import PortableExecutable.Proofs.Tls

/-!
The exports, the debug directory, the relocations, thread-local storage and the certificates under
a coupling. Only the certificates attempt a read. They go on when the file ends inside a header, and
report every other error, so that an error that does not count comes out again.
-/

namespace PortableExecutable

open Coupling

variable {C : Coupling} {ctx : Context}

namespace Export

theorem respects_requireAtMost {piece : Piece} {count : UInt32} {limit : Nat} :
    (requireAtMost piece count limit).Respects C := by
  rw [requireAtMost]
  split
  · exact agrees_fail
  · exact agrees_pure

theorem respects_readFunctions (lawful : C.Lawful) {bounds : DataDirectory} {ordinal : UInt32}
    {addresses : List UInt32} : (readFunctions ctx bounds ordinal addresses).Respects C := by
  induction addresses generalizing ordinal with
  | nil => exact agrees_pure
  | cons address rest ih =>
      rw [readFunctions]
      dsimp only
      split
      · exact (Context.respects_stringAtRva lawful).map.bind fun _ =>
          ih.bind fun _ => agrees_pure
      · exact ih.bind fun _ => agrees_pure

theorem respects_readAddressTable (lawful : C.Lawful) {bounds : DataDirectory}
    {d : ExportDirectory} : (readAddressTable ctx bounds d).Respects C := by
  rw [readAddressTable]
  split
  · exact agrees_pure
  · refine (Context.respects_requireRva lawful).bind fun _ => ?_
    refine (respects_recordAt lawful).reading.bind fun _ => ?_
    exact respects_readFunctions lawful

/-- The links come from tables that both runs have read, so they name the same functions. -/
theorem respects_readNames (lawful : C.Lawful) {links : List (UInt32 × UInt16)}
    {functions : Array ExportedFunction} : (readNames ctx links functions).Respects C := by
  induction links generalizing functions with
  | nil => exact agrees_pure
  | cons link rest ih =>
      rw [readNames]
      split
      · exact (Context.respects_stringAtRva lawful).bind fun _ => ih
      · exact agrees_fail

theorem respects_readNameTables (lawful : C.Lawful) {d : ExportDirectory}
    {functions : Array ExportedFunction} : (readNameTables ctx d functions).Respects C := by
  rw [readNameTables]
  split
  · exact agrees_pure
  · refine (Context.respects_requireRva lawful).bind fun _ => ?_
    refine (Context.respects_requireRva lawful).bind fun _ => ?_
    refine (respects_recordAt lawful).reading.bind fun _ => ?_
    refine (respects_recordAt lawful).reading.bind fun _ => ?_
    exact respects_readNames lawful

theorem respects_read (lawful : C.Lawful) : (read ctx).Respects C := by
  refine (respects_record lawful).reading.bind fun _ => ?_
  refine respects_requireAtMost.bind fun _ => ?_
  refine respects_requireAtMost.bind fun _ => ?_
  refine (Context.respects_stringAtRva lawful).bind fun _ => ?_
  refine (respects_readAddressTable lawful).bind fun _ => ?_
  refine (respects_readNameTables lawful).bind fun _ => ?_
  exact (respects_emit lawful).bind fun _ => agrees_pure

end Export

namespace Debug

theorem respects_readEntries (lawful : C.Lawful) {count : Nat} :
    (readEntries count).Respects C := by
  induction count with
  | zero => exact agrees_pure
  | succ count ih =>
      exact (respects_record lawful).reading.bind fun _ => ih.bind fun _ => agrees_pure

theorem respects_read (lawful : C.Lawful) : (read ctx).Respects C :=
  (respects_readEntries lawful).bind fun _ =>
    (respects_emit lawful).bind fun _ => agrees_pure

end Debug

namespace Relocation

/-- Both runs are led on by the sizes that the blocks have in the file. -/
theorem respects_readBlocks (lawful : C.Lawful) {offset remaining : Nat} :
    (readBlocks offset remaining).Respects C := by
  induction remaining using Nat.strongRecOn generalizing offset with
  | ind remaining ih =>
      rw [readBlocks]
      split
      · exact agrees_pure
      · refine (respects_recordAt lawful).reading.bind fun _ => ?_
        dsimp only
        split
        · exact agrees_fail
        · refine agrees_sum.bind fun _ => ?_
          refine (respects_recordAt lawful).reading.bind fun _ => ?_
          refine agrees_sum.bind fun _ => ?_
          refine Agrees.bind (ih _ ?_) fun _ => agrees_pure
          rw [deduct]
          omega

theorem respects_read (lawful : C.Lawful) : (read ctx).Respects C := by
  refine agrees_reader_bind lawful fun r₁ r₂ _ hPosition => ?_
  rw [hPosition]
  refine (respects_readBlocks lawful).bind fun _ => ?_
  exact (respects_emit lawful).bind fun _ => agrees_pure

end Relocation

namespace Tls

theorem respects_readWord32 (lawful : C.Lawful) : readWord32.Respects C :=
  (respects_word32 lawful).reading.bind fun _ => agrees_pure

theorem respects_readFixed32 (lawful : C.Lawful) : readFixed32.Respects C := by
  refine (respects_readWord32 lawful).bind fun _ => ?_
  refine (respects_readWord32 lawful).bind fun _ => ?_
  refine (respects_readWord32 lawful).bind fun _ => ?_
  refine (respects_readWord32 lawful).bind fun _ => ?_
  exact (respects_record lawful).reading.bind fun _ => agrees_pure

theorem respects_readFixed64 (lawful : C.Lawful) : readFixed64.Respects C :=
  (respects_record lawful).reading.bind fun _ => agrees_pure

theorem respects_readPointer? (lawful : C.Lawful) : (readPointer? ctx).Respects C := by
  refine (respects_chunk lawful).io.bind fun _ => ?_
  split
  · exact agrees_pure
  · exact agrees_pure

theorem respects_readCallbacks (lawful : C.Lawful) {room known : Nat} :
    (readCallbacks ctx room known).Respects C := by
  induction room generalizing known with
  | zero => exact (respects_emit lawful).bind fun _ => agrees_pure
  | succ room ih =>
      refine (respects_readPointer? lawful).bind fun callback? => ?_
      cases callback? with
      | none => exact (respects_emit lawful).bind fun _ => agrees_pure
      | some callback =>
          dsimp only
          split
          · exact agrees_pure
          · exact ih.bind fun _ => agrees_pure

theorem respects_readFixed (lawful : C.Lawful) {headers : Headers} :
    (readFixed headers).Respects C := by
  rw [readFixed]
  split
  · exact respects_readFixed64 lawful
  · exact respects_readFixed32 lawful

theorem respects_readTable (lawful : C.Lawful) {record : TlsDirectory} :
    (readTable ctx record).Respects C := by
  refine (Context.respects_translateVa lawful).bind fun table? => ?_
  cases table? with
  | none => exact agrees_fail
  | some table =>
      refine (respects_reach lawful).bind fun _ => ?_
      refine (respects_readCallbacks lawful).bind fun _ => ?_
      exact (respects_emit lawful).bind fun _ => agrees_pure

theorem respects_read (lawful : C.Lawful) : (read ctx).Respects C := by
  rw [read_eq]
  exact (respects_readFixed lawful).bind fun _ => respects_readTable lawful

end Tls

namespace Certificate

/-- Only a short read is recovered from. An error that does not count is a refusal, and so it is
passed on. -/
theorem respects_readHeader? (lawful : C.Lawful) {offset : Nat} :
    (readHeader? offset).Respects C := by
  refine (respects_recordAt lawful).attempt_bind ?_ ?_
  · intro header
    split
    · exact agrees_pure
    · exact (respects_emit lawful).bind fun _ => agrees_pure
    · exact agrees_fail
  · intro e excused s
    obtain ⟨limit, current, rfl⟩ := lawful.isRefusal excused
    exact ⟨_, s, rfl, _, rfl, excused⟩

theorem respects_readMany (lawful : C.Lawful) {offset remaining : Nat} :
    (readMany offset remaining).Respects C := by
  induction remaining using Nat.strongRecOn generalizing offset with
  | ind remaining ih =>
      rw [readMany]
      split
      · exact agrees_pure
      · refine (respects_readHeader? lawful).bind fun header? => ?_
        cases header? with
        | none => exact agrees_pure
        | some header =>
            dsimp only
            split
            · exact (respects_emit lawful).bind fun _ => agrees_pure
            · split
              · exact agrees_fail
              · refine agrees_sum.bind fun _ => ?_
                refine (respects_recordAt lawful).reading.bind fun _ => ?_
                refine agrees_sum.bind fun _ => agrees_sum.bind fun _ => ?_
                refine Agrees.bind (ih _ ?_) fun _ => agrees_pure
                unfold deduct
                omega

theorem respects_read (lawful : C.Lawful) : (read ctx).Respects C := by
  refine agrees_reader_bind lawful fun r₁ r₂ _ hPosition => ?_
  rw [hPosition]
  refine (respects_readMany lawful).bind fun _ => ?_
  exact (respects_emit lawful).bind fun _ => agrees_pure

end Certificate
end PortableExecutable
