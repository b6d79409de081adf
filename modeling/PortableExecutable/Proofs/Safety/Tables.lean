import PortableExecutable.Certificate
import PortableExecutable.Debug
import PortableExecutable.Export
import PortableExecutable.Relocation
import PortableExecutable.Tls
import PortableExecutable.Proofs.Safety.Directory

/-!
Safety of the exports, the debug directory, the relocations, thread-local storage and the
certificates. Relocations and certificates go on from a place by what remains of a declared size;
place and rest together never grow, so they stay in range for as long as the table goes on.
-/

namespace PortableExecutable

variable {s : Session} {ctx : Context}

/-- The size is a 32-bit word of the entry, or zero if there is no entry. -/
theorem Headers.declaredSize_lt (headers : Headers) (slot : Nat) :
    headers.declaredSize slot < 2 ^ 32 := by
  rw [Headers.declaredSize]
  cases headers.directory? slot with
  | none => exact Nat.two_pow_pos 32
  | some d => exact d.size.toNat_lt

namespace Export

theorem safe_requireAtMost {piece : Piece} {count : UInt32} {limit : Nat}
    (h : s.reader.Sound) :
    (requireAtMost piece count limit).Safe s fun _ _ => True := by
  rw [requireAtMost]
  split
  · exact Scan.safe_fail h
  · exact .pure h True.intro

theorem safe_readFunctions {bounds : DataDirectory} {ordinal : UInt32}
    {addresses : List UInt32} (h : s.reader.Sound) :
    (readFunctions ctx bounds ordinal addresses).Safe s fun _ _ => True := by
  induction addresses generalizing s ordinal with
  | nil => exact .pure h True.intro
  | cons address rest ih =>
      have continued {forwardName : Option String} {s : Session} (h : s.reader.Sound) :
          (do return { address, ordinal, forwardName } ::
                (← readFunctions ctx bounds (ordinal + 1) rest) :
            ImageScan (List ExportedFunction)).Safe s fun _ _ => True := by
        refine (ih h).bind ?_
        intro _ s₁ h₁ _
        exact .pure h₁.sound True.intro
      rw [readFunctions]
      dsimp only
      split
      · have forwarded : (some <$> ctx.stringAtRva .exportForwarder address).Safe s
            fun _ _ => True := (Context.safe_stringAtRva h).map
        refine forwarded.bind ?_
        intro _ s₁ h₁ _
        exact continued h₁.sound
      · exact continued h

theorem safe_readAddressTable {bounds : DataDirectory} {d : ExportDirectory}
    (h : s.reader.Sound) :
    (readAddressTable ctx bounds d).Safe s fun _ _ => True := by
  rw [readAddressTable]
  split
  · exact .pure h True.intro
  · refine (Context.safe_requireRva h).bind ?_
    intro _ s₁ h₁ _
    refine (ImageScan.safe_reading (Read.safe_recordAt h₁.sound)).bind ?_
    intro _ s₂ h₂ _
    exact safe_readFunctions h₂.sound

theorem safe_readNames {links : List (UInt32 × UInt16)}
    {functions : Array ExportedFunction} (h : s.reader.Sound) :
    (readNames ctx links functions).Safe s fun _ _ => True := by
  induction links generalizing s functions with
  | nil => exact .pure h True.intro
  | cons link rest ih =>
      rw [readNames]
      split
      · refine (Context.safe_stringAtRva h).bind ?_
        intro _ s₁ h₁ _
        exact ih h₁.sound
      · exact Scan.safe_fail h

theorem safe_readNameTables {d : ExportDirectory} {functions : Array ExportedFunction}
    (h : s.reader.Sound) :
    (readNameTables ctx d functions).Safe s fun _ _ => True := by
  rw [readNameTables]
  split
  · exact .pure h True.intro
  · refine (Context.safe_requireRva h).bind ?_
    intro _ s₁ h₁ _
    refine (Context.safe_requireRva h₁.sound).bind ?_
    intro _ s₂ h₂ _
    refine (ImageScan.safe_reading (Read.safe_recordAt h₂.sound)).bind ?_
    intro _ s₃ h₃ _
    refine (ImageScan.safe_reading (Read.safe_recordAt h₃.sound)).bind ?_
    intro _ s₄ h₄ _
    exact safe_readNames h₄.sound

theorem safe_read (h : s.reader.Sound) : (read ctx).Safe s fun _ _ => True := by
  refine (ImageScan.safe_reading (Read.safe_record h)).bind ?_
  intro _ s₁ h₁ _
  refine (safe_requireAtMost h₁.sound).bind ?_
  intro _ s₂ h₂ _
  refine (safe_requireAtMost h₂.sound).bind ?_
  intro _ s₃ h₃ _
  refine (Context.safe_stringAtRva h₃.sound).bind ?_
  intro _ s₄ h₄ _
  refine (safe_readAddressTable h₄.sound).bind ?_
  intro _ s₅ h₅ _
  refine (safe_readNameTables h₅.sound).bind ?_
  intro _ s₆ h₆ _
  refine (Scan.safe_emit h₆.sound).bind ?_
  intro _ s₇ h₇ _
  exact .pure h₇.sound True.intro

end Export

namespace Debug

theorem safe_readEntries {count : Nat} (h : s.reader.Sound) :
    (readEntries count).Safe s fun _ _ => True := by
  induction count generalizing s with
  | zero => exact .pure h True.intro
  | succ count ih =>
      refine (ImageScan.safe_reading (Read.safe_record h)).bind ?_
      intro _ s₁ h₁ _
      refine (ih h₁.sound).bind ?_
      intro _ s₂ h₂ _
      exact .pure h₂.sound True.intro

theorem safe_read (h : s.reader.Sound) : (read ctx).Safe s fun _ _ => True := by
  refine (safe_readEntries h).bind ?_
  intro _ s₁ h₁ _
  refine (Scan.safe_emit h₁.sound).bind ?_
  intro _ s₂ h₂ _
  exact .pure h₂.sound True.intro

end Debug

namespace Relocation

/-- What remains shrinks by every block, so the end of the table stays where it is. -/
theorem safe_readBlocks {offset remaining : Nat} (h : s.reader.Sound)
    (hEnd : offset + remaining < 2 ^ 64) :
    (readBlocks offset remaining).Safe s fun _ _ => True := by
  induction remaining using Nat.strongRecOn generalizing s offset with
  | ind remaining ih =>
      rw [readBlocks]
      split
      · exact .pure h True.intro
      · refine (ImageScan.safe_reading (Read.safe_recordAt h)).bind ?_
        intro header s₁ h₁ _
        dsimp only
        split
        · exact Scan.safe_fail h₁.sound
        · refine Scan.safe_sum_bind (by omega) ?_
          refine (ImageScan.safe_reading (Read.safe_recordAt h₁.sound)).bind ?_
          intro entries s₂ h₂ _
          refine Scan.safe_sum_bind (by omega) ?_
          -- the block is paid for out of the rest, and is not empty
          have hNext : offset + (header.u32 4).toNat + (remaining - (header.u32 4).toNat) <
              2 ^ 64 := by omega
          have rest := ih (remaining - (header.u32 4).toNat) (by omega) h₂.sound hNext
          refine rest.bind ?_
          intro _ s₃ h₃ _
          exact .pure h₃.sound True.intro

theorem safe_read (h : s.reader.Sound) (hPosition : s.reader.position < 2 ^ 32) :
    (read ctx).Safe s fun _ _ => True := by
  have hSize := ctx.headers.declaredSize_lt 5
  refine Scan.safe_reader_bind ?_
  refine (safe_readBlocks h (by omega)).bind ?_
  intro _ s₁ h₁ _
  refine (Scan.safe_emit h₁.sound).bind ?_
  intro _ s₂ h₂ _
  exact .pure h₂.sound True.intro

end Relocation

namespace Tls

theorem safe_readWord32 (h : s.reader.Sound) : readWord32.Safe s fun _ _ => True := by
  refine (ImageScan.safe_reading (Read.safe_word32 h)).bind ?_
  intro _ s₁ h₁ _
  exact .pure h₁.sound True.intro

theorem safe_readFixed32 (h : s.reader.Sound) : readFixed32.Safe s fun _ _ => True := by
  refine (safe_readWord32 h).bind ?_
  intro _ s₁ h₁ _
  refine (safe_readWord32 h₁.sound).bind ?_
  intro _ s₂ h₂ _
  refine (safe_readWord32 h₂.sound).bind ?_
  intro _ s₃ h₃ _
  refine (safe_readWord32 h₃.sound).bind ?_
  intro _ s₄ h₄ _
  refine (ImageScan.safe_reading (Read.safe_record h₄.sound)).bind ?_
  intro _ s₅ h₅ _
  exact .pure h₅.sound True.intro

theorem safe_readFixed64 (h : s.reader.Sound) : readFixed64.Safe s fun _ _ => True := by
  refine (ImageScan.safe_reading (Read.safe_record h)).bind ?_
  intro _ s₁ h₁ _
  exact .pure h₁.sound True.intro

theorem safe_readPointer? (h : s.reader.Sound) :
    (readPointer? ctx).Safe s fun _ _ => True := by
  refine (ImageScan.safe_io (Read.safe_chunk h)).bind ?_
  intro chunk s₁ h₁ _
  split
  · exact .pure h₁.sound True.intro
  · exact .pure h₁.sound True.intro

theorem safe_readCallbacks {room known : Nat} (h : s.reader.Sound) :
    (readCallbacks ctx room known).Safe s fun _ _ => True := by
  induction room generalizing s known with
  | zero =>
      refine (Scan.safe_emit h).bind ?_
      intro _ s₁ h₁ _
      exact .pure h₁.sound True.intro
  | succ room ih =>
      refine (safe_readPointer? h).bind ?_
      intro callback? s₁ h₁ _
      cases callback? with
      | none =>
          refine (Scan.safe_emit h₁.sound).bind ?_
          intro _ s₂ h₂ _
          exact .pure h₂.sound True.intro
      | some callback =>
          dsimp only
          split
          · exact .pure h₁.sound True.intro
          · refine (ih h₁.sound).bind ?_
            intro _ s₂ h₂ _
            exact .pure h₂.sound True.intro

theorem safe_read (h : s.reader.Sound) : (read ctx).Safe s fun _ _ => True := by
  rw [read]
  split
  case' isTrue => refine (safe_readFixed64 h).bind ?_
  case' isFalse => refine (safe_readFixed32 h).bind ?_
  -- from here on the width of the record does not matter
  all_goals
    intro record s₁ h₁ _
    refine (Context.safe_translateVa h₁.sound).bind ?_
    intro table? s₂ h₂ _
    cases table? with
    | none => exact Scan.safe_fail h₂.sound
    | some table =>
        refine (ImageScan.safe_reach h₂.sound).bind ?_
        intro _ s₃ h₃ _
        refine (safe_readCallbacks h₃.sound).bind ?_
        intro _ s₄ h₄ _
        refine (Scan.safe_emit h₄.sound).bind ?_
        intro _ s₅ h₅ _
        exact .pure h₅.sound True.intro

end Tls

namespace Certificate

/-- The entry of the certificates has a place in the file and not an address. -/
theorem safe_enter (h : s.reader.Sound) : (enter ctx).Safe s Context.Entered := by
  refine (Context.safe_presentDirectory h).bind ?_
  intro d? s₁ h₁ _
  cases d? with
  | none => exact .pure h₁.sound (fun hSome => nomatch hSome)
  | some d =>
      refine (Context.safe_attempt_seek h₁.sound).bind ?_
      intro r s₂ h₂ hSought
      cases r with
      | ok _ =>
          refine .pure h₂.sound fun _ => ?_
          rw [hSought rfl]
          exact d.virtualAddress.toNat_lt
      | error _ =>
          refine (Scan.safe_emit h₂.sound).bind ?_
          intro _ s₃ h₃ _
          exact .pure h₃.sound (fun hSome => nomatch hSome)

theorem safe_readHeader? {offset : Nat} (h : s.reader.Sound) :
    (readHeader? offset).Safe s fun _ _ => True := by
  have attempted : (Scan.attempt (Read.recordAt offset 8) : ImageScan _).Safe s
      fun _ _ => True :=
    (Read.safe_recordAt h).weaken.attempt fun _ _ _ => True.intro
  refine attempted.bind ?_
  intro header s₁ h₁ _
  split
  · exact .pure h₁.sound True.intro
  · refine (Scan.safe_emit h₁.sound).bind ?_
    intro _ s₂ h₂ _
    exact .pure h₂.sound True.intro
  · exact Scan.safe_fail h₁.sound

/-- A record is filled up to eight bytes only as far as there is something left, so the end of the
table stays where it is. -/
theorem safe_readMany {offset remaining : Nat} (h : s.reader.Sound)
    (hEnd : offset + remaining < 2 ^ 64) :
    (readMany offset remaining).Safe s fun _ _ => True := by
  induction remaining using Nat.strongRecOn generalizing s offset with
  | ind remaining ih =>
      rw [readMany]
      split
      · exact .pure h True.intro
      · refine (safe_readHeader? h).bind ?_
        intro header? s₁ h₁ _
        cases header? with
        | none => exact .pure h₁.sound True.intro
        | some header =>
            dsimp only
            split
            · refine (Scan.safe_emit h₁.sound).bind ?_
              intro _ s₂ h₂ _
              exact .pure h₂.sound True.intro
            · split
              · exact Scan.safe_fail h₁.sound
              · refine Scan.safe_sum_bind (by omega) ?_
                refine (ImageScan.safe_reading (Read.safe_recordAt h₁.sound)).bind ?_
                intro data s₂ h₂ _
                refine Scan.safe_sum_bind (by omega) ?_
                refine Scan.safe_sum_bind (by unfold deduct; omega) ?_
                refine (ih _ (by unfold deduct; omega) h₂.sound
                  (by unfold deduct; omega)).bind ?_
                intro _ s₃ h₃ _
                exact .pure h₃.sound True.intro

theorem safe_read (h : s.reader.Sound) (hPosition : s.reader.position < 2 ^ 32) :
    (read ctx).Safe s fun _ _ => True := by
  have hSize := ctx.headers.declaredSize_lt 4
  refine Scan.safe_reader_bind ?_
  refine (safe_readMany h (by omega)).bind ?_
  intro _ s₁ h₁ _
  refine (Scan.safe_emit h₁.sound).bind ?_
  intro _ s₂ h₂ _
  exact .pure h₂.sound True.intro

end Certificate
end PortableExecutable
