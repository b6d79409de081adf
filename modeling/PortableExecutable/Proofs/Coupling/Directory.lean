import PortableExecutable.Directory
import PortableExecutable.Proofs.Coupling.Reads

/-!
Addresses under a coupling. Translating one looks at the section table alone.
-/

namespace PortableExecutable

open Coupling

variable {C : Coupling}

theorem SectionTable.respects_translate {ε : Type} [Caused ε] (lawful : C.Lawful)
    {t : SectionTable} {rva : Nat} :
    (t.translate rva : Scan ε (Option UInt32)).Respects C := by
  rw [translate]
  split
  · exact agrees_pure
  · exact (respects_emit lawful).bind fun _ => agrees_pure
  · exact (respects_emit lawful).bind fun _ => agrees_pure

namespace Context

variable {ctx : Context}

theorem respects_translateRva (lawful : C.Lawful) {rva : Nat} :
    (ctx.translateRva rva).Respects C :=
  (SectionTable.respects_translate lawful).bind fun _ => agrees_pure

theorem respects_translateVa (lawful : C.Lawful) {va : Nat} :
    (ctx.translateVa va).Respects C := by
  rw [translateVa]
  split
  · exact respects_translateRva lawful
  · exact agrees_pure

theorem respects_requireRva (lawful : C.Lawful) {piece : Piece} {rva : UInt32} :
    (ctx.requireRva piece rva).Respects C := by
  refine (respects_translateRva lawful).bind fun offset? => ?_
  cases offset? with
  | none => exact agrees_fail
  | some offset => exact agrees_pure

theorem respects_stringAtRva (lawful : C.Lawful) {piece : Piece} {rva : UInt32} :
    (ctx.stringAtRva piece rva).Respects C :=
  (respects_requireRva lawful).bind fun _ => (respects_stringAt lawful).reading

end Context
end PortableExecutable
