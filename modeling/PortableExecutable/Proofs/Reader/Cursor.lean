import PortableExecutable.Directory
import PortableExecutable.Proofs.Reader.Steps

/-!
Computations that leave the cursor alone, whether they deliver a value or stop. Reads that name
their own place are such, and so is whatever is put together from them.
-/

namespace PortableExecutable
namespace Scan

variable {ε ε' α β : Type}

/-- However it ends, the computation leaves the cursor where it was. -/
def KeepsCursor (act : Scan ε α) : Prop :=
  ∀ s : Session, act.Leads s
    (fun _ s' => s'.reader.position = s.reader.position)
    (fun _ s' => s'.reader.position = s.reader.position)

theorem KeepsCursor.bind {act : Scan ε α} {next : α → Scan ε β} (first : act.KeepsCursor)
    (rest : ∀ a, (next a).KeepsCursor) : (act >>= next).KeepsCursor := by
  intro s
  rw [leads_bind]
  apply Leads.mono (first s)
  · intro a s' hFirst
    apply Leads.mono (rest a s')
    · exact fun _ _ hRest => hRest.trans hFirst
    · exact fun _ _ hRest => hRest.trans hFirst
  · exact fun _ _ hFirst => hFirst

theorem KeepsCursor.mapError {act : Scan ε' α} {f : ε' → ε} (h : act.KeepsCursor) :
    (mapError f act).KeepsCursor := by
  intro s
  rw [leads_mapError]
  exact h s

theorem KeepsCursor.attempt {act : Scan ε' α} (h : act.KeepsCursor) :
    (attempt act : Scan ε (Except ε' α)).KeepsCursor := by
  intro s
  rw [leads_attempt]
  apply Leads.mono (h s) (fun _ _ hDone => hDone)
  intro e s' hStop
  cases e with
  | error e => exact hStop
  | fault g => exact hStop

theorem keepsCursor_pure {a : α} : (pure a : Scan ε α).KeepsCursor := fun _ => rfl

theorem keepsCursor_fail {e : ε} : (fail e : Scan ε α).KeepsCursor := fun _ => rfl

theorem keepsCursor_emit {event : Event} : (emit event : Scan ε Unit).KeepsCursor :=
  fun _ => rfl

theorem keepsCursor_sum {a b : Nat} : (sum a b : Scan ε Nat).KeepsCursor := by
  intro s
  rw [leads_sum]
  split <;> rfl

end Scan

namespace Read

/-- A short read at a place that is given moves nothing, unlike one at the cursor. -/
theorem keepsCursor_recordAt {offset length : Nat} : (recordAt offset length).KeepsCursor := by
  intro s
  apply leads_recordAt
  · exact fun _ _ => rfl
  · exact fun _ _ _ => rfl
  · exact fun _ _ _ => rfl
  · exact fun _ _ _ => rfl

theorem keepsCursor_stringAt {offset maxLength : Nat} :
    (stringAt offset maxLength).KeepsCursor := by
  intro s
  apply leads_stringAt
  · exact fun _ => rfl
  · exact fun _ _ _ => rfl
  · exact fun _ _ _ => rfl
  · exact fun _ _ _ => rfl

end Read

namespace ImageScan

theorem keepsCursor_reading {α : Type} {piece : Piece} {act : Read α} (h : act.KeepsCursor) :
    (reading piece act).KeepsCursor :=
  h.mapError

end ImageScan

theorem SectionTable.keepsCursor_translate {ε : Type} {t : SectionTable} {rva : Nat} :
    (t.translate rva : Scan ε (Option UInt32)).KeepsCursor := by
  unfold translate
  split
  · exact Scan.keepsCursor_pure
  · exact Scan.keepsCursor_emit.bind fun _ => Scan.keepsCursor_pure
  · exact Scan.keepsCursor_emit.bind fun _ => Scan.keepsCursor_pure

namespace Context

variable {ctx : Context}

theorem keepsCursor_translateRva {rva : Nat} : (ctx.translateRva rva).KeepsCursor :=
  SectionTable.keepsCursor_translate.bind fun _ => Scan.keepsCursor_pure

theorem keepsCursor_requireRva {piece : Piece} {rva : UInt32} :
    (ctx.requireRva piece rva).KeepsCursor := by
  refine keepsCursor_translateRva.bind fun offset? => ?_
  cases offset? with
  | none => exact Scan.keepsCursor_fail
  | some offset => exact Scan.keepsCursor_pure

/-- What an address leads to is read without going there. -/
theorem keepsCursor_stringAtRva {piece : Piece} {rva : UInt32} :
    (ctx.stringAtRva piece rva).KeepsCursor :=
  keepsCursor_requireRva.bind fun _ =>
    ImageScan.keepsCursor_reading Read.keepsCursor_stringAt

end Context
end PortableExecutable
