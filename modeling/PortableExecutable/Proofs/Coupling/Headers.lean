import PortableExecutable.Headers
import PortableExecutable.Proofs.Coupling.Reads

/-!
The header stages under a coupling. They attempt nothing, so every error of a read is the error of
the stage.
-/

namespace PortableExecutable

open Coupling

variable {C : Coupling}

namespace DosHeader

theorem respects_read (lawful : C.Lawful) : read.Respects C := by
  refine agrees_reader_bind lawful fun r₁ r₂ hContent _ => ?_
  have hSize : r₁.size = r₂.size := congrArg ByteArray.size hContent
  dsimp only
  rw [hSize]
  split
  · exact agrees_fail
  · refine (respects_seek lawful).io.bind fun _ => ?_
    refine (respects_record lawful).reading.bind fun _ => ?_
    split
    · exact agrees_pure
    · exact agrees_fail

end DosHeader

namespace PeHeader

theorem respects_read (lawful : C.Lawful) {dos : DosHeader} : (read dos).Respects C := by
  refine (respects_reach lawful).bind fun _ => ?_
  refine (respects_record lawful).reading.bind fun _ => ?_
  dsimp only
  split
  · exact agrees_pure
  · exact agrees_fail

end PeHeader

namespace DataDirectory

theorem respects_readMany (lawful : C.Lawful) {index count : Nat} :
    (readMany index count).Respects C := by
  induction count generalizing index with
  | zero => exact agrees_pure
  | succ count ih =>
      refine (respects_record lawful).reading.bind fun _ => ?_
      exact (respects_emit lawful).bind fun _ => ih.bind fun _ => agrees_pure

end DataDirectory

namespace OptionalHeader

theorem respects_read32 (lawful : C.Lawful) {common : OptionalHeaderCommon} :
    (read32 common).Respects C := by
  refine (respects_record lawful).reading.bind fun _ => ?_
  refine (respects_record lawful).reading.bind fun _ => ?_
  exact (respects_record lawful).reading.bind fun _ => agrees_pure

theorem respects_read64 (lawful : C.Lawful) {common : OptionalHeaderCommon} :
    (read64 common).Respects C := by
  refine (respects_word64 lawful).reading.bind fun _ => ?_
  refine (respects_record lawful).reading.bind fun _ => ?_
  exact (respects_record lawful).reading.bind fun _ => agrees_pure

theorem respects_readFixed (lawful : C.Lawful) : readFixed.Respects C := by
  refine (respects_record lawful).reading.bind fun _ => ?_
  dsimp only
  split
  · exact respects_read32 lawful
  · split
    · exact respects_read64 lawful
    · exact agrees_fail

theorem respects_readDirectories (lawful : C.Lawful) {header : OptionalHeader} :
    header.readDirectories.Respects C := by
  rw [readDirectories]
  dsimp only
  split
  · exact (respects_emit lawful).bind fun _ => DataDirectory.respects_readMany lawful
  · exact DataDirectory.respects_readMany lawful

theorem respects_read (lawful : C.Lawful) {dos : DosHeader} {pe : PeHeader} :
    (read dos pe).Respects C := by
  rw [read]
  split
  · exact (respects_emit lawful).bind fun _ => agrees_pure
  · refine (respects_reach lawful).bind fun _ => ?_
    refine (respects_readFixed lawful).bind fun _ => ?_
    refine (respects_readDirectories lawful).bind fun _ => ?_
    -- how far the header was read shows in the cursor, which is the same in both runs
    refine agrees_reader_bind lawful fun r₁ r₂ _ hPosition => ?_
    rw [hPosition]
    refine agrees_difference.bind fun _ => ?_
    dsimp only
    split
    · exact (respects_emit lawful).bind fun _ => agrees_pure
    · exact agrees_pure

end OptionalHeader

namespace SectionTable

theorem respects_readMany (lawful : C.Lawful) {index count : Nat} :
    (readMany index count).Respects C := by
  induction count generalizing index with
  | zero => exact agrees_pure
  | succ count ih =>
      refine (respects_record lawful).reading.bind fun _ => ?_
      exact (respects_emit lawful).bind fun _ => ih.bind fun _ => agrees_pure

theorem respects_read (lawful : C.Lawful) {dos : DosHeader} {pe : PeHeader} :
    (read dos pe).Respects C :=
  (respects_reach lawful).bind fun _ => (respects_readMany lawful).bind fun _ => agrees_pure

end SectionTable
end PortableExecutable
