import PortableExecutable.Headers
import PortableExecutable.Proofs.Safety.Steps

/-!
Safety of the header stages. Each one begins with a seek, so nothing is asked of the cursor. The
only difference taken here is between two places of the cursor, and the reads in between only
move it on.
-/

namespace PortableExecutable

variable {s : Session}

namespace DosHeader

theorem safe_read (h : s.reader.Sound) : read.Safe s fun _ _ => True := by
  refine Scan.safe_reader_bind ?_
  dsimp only
  split
  · exact Scan.safe_fail h
  · refine (ImageScan.safe_io (Read.safe_seek h)).bind ?_
    intro _ s₁ h₁ _
    refine (ImageScan.safe_reading (Read.safe_record h₁.sound)).bind ?_
    intro _ s₂ h₂ _
    split
    · exact .pure h₂.sound True.intro
    · exact Scan.safe_fail h₂.sound

end DosHeader

namespace PeHeader

theorem safe_read {dos : DosHeader} (h : s.reader.Sound) :
    (read dos).Safe s fun _ _ => True := by
  refine (ImageScan.safe_reach h).bind ?_
  intro _ s₁ h₁ _
  refine (ImageScan.safe_reading (Read.safe_record h₁.sound)).bind ?_
  intro _ s₂ h₂ _
  dsimp only
  split
  · exact .pure h₂.sound True.intro
  · exact Scan.safe_fail h₂.sound

end PeHeader

namespace DataDirectory

theorem safe_readMany {index count : Nat} (h : s.reader.Sound) :
    (readMany index count).Safe s fun _ s' =>
      s.reader.position ≤ s'.reader.position := by
  induction count generalizing s index with
  | zero => exact .pure h (Nat.le_refl _)
  | succ count ih =>
      refine (ImageScan.safe_reading (Read.safe_record h)).bind ?_
      intro _ s₁ h₁ hRecord
      refine (Scan.safe_emit h₁.sound).bind ?_
      intro _ s₂ h₂ hEmit
      refine (ih h₂.sound).bind ?_
      intro _ s₃ h₃ hRest
      rw [hEmit] at hRest
      exact .pure h₃.sound (by omega)

end DataDirectory

namespace OptionalHeader

theorem safe_read32 {common : OptionalHeaderCommon} (h : s.reader.Sound) :
    (read32 common).Safe s fun _ s' => s.reader.position ≤ s'.reader.position := by
  refine (ImageScan.safe_reading (Read.safe_record h)).bind ?_
  intro _ s₁ h₁ hBases
  refine (ImageScan.safe_reading (Read.safe_record h₁.sound)).bind ?_
  intro _ s₂ h₂ hShared
  refine (ImageScan.safe_reading (Read.safe_record h₂.sound)).bind ?_
  intro _ s₃ h₃ hReserves
  exact .pure h₃.sound (by omega)

theorem safe_read64 {common : OptionalHeaderCommon} (h : s.reader.Sound) :
    (read64 common).Safe s fun _ s' => s.reader.position ≤ s'.reader.position := by
  refine (ImageScan.safe_reading (Read.safe_word64 h)).bind ?_
  intro _ s₁ h₁ hBase
  refine (ImageScan.safe_reading (Read.safe_record h₁.sound)).bind ?_
  intro _ s₂ h₂ hShared
  refine (ImageScan.safe_reading (Read.safe_record h₂.sound)).bind ?_
  intro _ s₃ h₃ hReserves
  exact .pure h₃.sound (by omega)

theorem safe_readFixed (h : s.reader.Sound) :
    readFixed.Safe s fun _ s' => s.reader.position ≤ s'.reader.position := by
  refine (ImageScan.safe_reading (Read.safe_record h)).bind ?_
  intro _ s₁ h₁ hCommon
  have hMoved : s.reader.position ≤ s₁.reader.position := by omega
  dsimp only
  split
  · exact (safe_read32 h₁.sound).mono fun _ _ => Nat.le_trans hMoved
  · split
    · exact (safe_read64 h₁.sound).mono fun _ _ => Nat.le_trans hMoved
    · exact Scan.safe_fail h₁.sound

theorem safe_readDirectories {header : OptionalHeader} (h : s.reader.Sound) :
    header.readDirectories.Safe s fun _ s' =>
      s.reader.position ≤ s'.reader.position := by
  rw [readDirectories]
  dsimp only
  split
  · refine (Scan.safe_emit h).bind ?_
    intro _ s₁ h₁ hEmit
    rw [← hEmit]
    exact DataDirectory.safe_readMany h₁.sound
  · exact DataDirectory.safe_readMany h

/-- The cursor does not go back to before the header, so there is no underflow in telling how much
of it was read. -/
theorem safe_read {dos : DosHeader} {pe : PeHeader} (h : s.reader.Sound) :
    (read dos pe).Safe s fun _ _ => True := by
  rw [read]
  split
  · refine (Scan.safe_emit h).bind ?_
    intro _ s₁ h₁ _
    exact .pure h₁.sound True.intro
  · refine (ImageScan.safe_reach h).bind ?_
    intro _ s₁ h₁ hReach
    refine (safe_readFixed h₁.sound).bind ?_
    intro header s₂ h₂ hFixed
    refine (safe_readDirectories h₂.sound).bind ?_
    intro directories s₃ h₃ hDirectories
    refine Scan.safe_reader_bind ?_
    refine Scan.safe_difference_bind (by omega) ?_
    dsimp only
    split
    · refine (Scan.safe_emit h₃.sound).bind ?_
      intro _ s₄ h₄ _
      exact .pure h₄.sound True.intro
    · exact .pure h₃.sound True.intro

end OptionalHeader

namespace SectionTable

theorem safe_readMany {index count : Nat} (h : s.reader.Sound) :
    (readMany index count).Safe s fun _ _ => True := by
  induction count generalizing s index with
  | zero => exact .pure h True.intro
  | succ count ih =>
      refine (ImageScan.safe_reading (Read.safe_record h)).bind ?_
      intro _ s₁ h₁ _
      refine (Scan.safe_emit h₁.sound).bind ?_
      intro _ s₂ h₂ _
      refine (ih h₂.sound).bind ?_
      intro _ s₃ h₃ _
      exact .pure h₃.sound True.intro

theorem safe_read {dos : DosHeader} {pe : PeHeader} (h : s.reader.Sound) :
    (read dos pe).Safe s fun _ _ => True := by
  refine (ImageScan.safe_reach h).bind ?_
  intro _ s₁ h₁ _
  refine (safe_readMany h₁.sound).bind ?_
  intro _ s₂ h₂ _
  exact .pure h₂.sound True.intro

end SectionTable

namespace Headers

theorem safe_read (h : s.reader.Sound) : read.Safe s fun _ _ => True := by
  refine (DosHeader.safe_read h).bind ?_
  intro dos s₁ h₁ _
  refine (PeHeader.safe_read h₁.sound).bind ?_
  intro pe s₂ h₂ _
  refine (OptionalHeader.safe_read h₂.sound).bind ?_
  intro parts s₃ h₃ _
  refine (SectionTable.safe_read h₃.sound).bind ?_
  intro sections s₄ h₄ _
  exact .pure h₄.sound True.intro

end Headers
end PortableExecutable
