import PortableExecutable.Image
import PortableExecutable.Proofs.Safety.Headers
import PortableExecutable.Proofs.Safety.Import
import PortableExecutable.Proofs.Safety.Resource
import PortableExecutable.Proofs.Safety.Tables

/-!
Safety of reading a whole image. A fault ends the reading wherever it happens and nothing recovers
from one, so a result that is an image or an error means that no step left its range. Cuts of the
bytes, fields of a record, places in an array and the differences that a check protects need no
mention, as they carry their own bounds.
-/

namespace PortableExecutable

variable {s : Session}

theorem Directories.safe_read {ctx : Context} (h : s.reader.Sound) :
    (read ctx).Safe s fun _ _ => True := by
  refine (Directory.safe_load h (fun _ => Context.safe_enterDirectory)
    fun _ hSound _ => Import.safe_read hSound).bind ?_
  intro _ s₁ h₁ _
  refine (Directory.safe_load h₁.sound (fun _ => Context.safe_enterDirectory)
    fun _ hSound _ => Export.safe_read hSound).bind ?_
  intro _ s₂ h₂ _
  refine (Directory.safe_load h₂.sound (fun _ => Context.safe_enterDirectory)
    fun _ => Resource.safe_read).bind ?_
  intro _ s₃ h₃ _
  refine (Directory.safe_load h₃.sound (fun _ => Context.safe_enterDirectory)
    fun _ hSound _ => Debug.safe_read hSound).bind ?_
  intro _ s₄ h₄ _
  refine (Directory.safe_load h₄.sound (fun _ => Context.safe_enterDirectory)
    fun _ => Relocation.safe_read).bind ?_
  intro _ s₅ h₅ _
  refine (Directory.safe_load h₅.sound (fun _ => Context.safe_enterDirectory)
    fun _ hSound _ => Tls.safe_read hSound).bind ?_
  intro _ s₆ h₆ _
  refine (Directory.safe_load h₆.sound (fun _ => Certificate.safe_enter)
    fun _ => Certificate.safe_read).bind ?_
  intro _ s₇ h₇ _
  exact .pure h₇.sound True.intro

namespace Image

theorem safe_read {options : Options} (h : s.reader.Sound) :
    (read options).Safe s fun _ _ => True := by
  apply Scan.Safe.within
  intro log
  refine (Headers.safe_read (s := ⟨s.reader, log⟩) h).bind ?_
  intro headers s₁ h₁ _
  refine (Directories.safe_read h₁.sound).bind ?_
  intro directories s₂ h₂ _
  refine Scan.safe_reader_bind ?_
  refine (Scan.safe_emit h₂.sound).bind ?_
  intro _ s₃ h₃ _
  exact .pure h₃.sound fun _ => True.intro

/-- Whatever the file holds and whatever the caps are, reading it ends in an image or an error. -/
theorem ofBytes_never_faults (label : String) (content : ByteArray) (options : Options)
    (budgeted : options.limits.maxReadBytes.toNat < 2 ^ 64 - 1) :
    (∃ image, (ofBytes label content options).result = .ok image) ∨
      ∃ cause, (ofBytes label content options).result = .error (.error cause) := by
  unfold ofBytes report
  cases made : Reader.ofBytes label content options.limits with
  | error cause => exact .inr ⟨.io cause, rfl⟩
  | ok reader =>
      have hRead : (read options).Safe ⟨reader, #[]⟩ fun _ _ => True :=
        safe_read (Reader.sound_ofBytes budgeted made).1
      dsimp only
      cases hRun : read options ⟨reader, #[]⟩ with
      | ok image s' => exact .inl ⟨image, by simp [hRun]⟩
      | error stop s' =>
          obtain ⟨_, cause, rfl⟩ := hRead.error hRun
          exact .inr ⟨cause, by simp [hRun]⟩

/-- A DOS header alone, whose PE header would stand at the last 32-bit place. -/
def lastPlace : ByteArray :=
  ⟨#[0x4D, 0x5A] ++ Array.replicate 58 0 ++ #[0xFF, 0xFF, 0xFF, 0xFF]⟩

theorem ofBytes_never_faults_lastPlace :
    ({} : Options).limits.maxReadBytes.toNat < 2 ^ 64 - 1 ∧
      ((∃ image, (ofBytes "memory" lastPlace {}).result = .ok image) ∨
        ∃ cause, (ofBytes "memory" lastPlace {}).result = .error (.error cause)) :=
  ⟨by decide, ofBytes_never_faults "memory" lastPlace {} (by decide)⟩

end Image
end PortableExecutable
