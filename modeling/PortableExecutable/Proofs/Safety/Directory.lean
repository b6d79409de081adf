import PortableExecutable.Directory
import PortableExecutable.Proofs.Safety.Steps

/-!
Safety of finding a directory. A translated address is a 32-bit place, so a directory that was
entered begins below `2 ^ 32`; that is what keeps the sums of the table readers in 64 bits.
-/

namespace PortableExecutable

variable {s : Session}

theorem SectionTable.safe_translate {ε : Type} {t : SectionTable} {rva : Nat}
    (h : s.reader.Sound) :
    (t.translate rva : Scan ε (Option UInt32)).Safe s fun _ s' => s'.reader = s.reader := by
  rw [translate]
  split
  · exact .pure h rfl
  · refine (Scan.safe_emit h).bind ?_
    intro _ s₁ h₁ hEmit
    exact .pure h₁.sound hEmit
  · refine (Scan.safe_emit h).bind ?_
    intro _ s₁ h₁ hEmit
    exact .pure h₁.sound hEmit

namespace Context

variable {ctx : Context}

/-- A place that an address leads to, if it leads anywhere. -/
def Placed (offset? : Option Nat) : Prop := ∀ offset, offset? = some offset → offset < 2 ^ 32

theorem placed_valid (offset? : Option UInt32) : Placed (valid offset?) := by
  intro offset hValid
  obtain ⟨place, _, rfl⟩ := Option.map_eq_some_iff.mp hValid
  exact place.toNat_lt

theorem placed_none : Placed none := by
  intro _ h
  cases h

theorem safe_translateRva {rva : Nat} (h : s.reader.Sound) :
    (ctx.translateRva rva).Safe s fun offset? s' =>
      s'.reader = s.reader ∧ Placed offset? := by
  refine (SectionTable.safe_translate h).bind ?_
  intro offset? s₁ h₁ hReader
  exact .pure h₁.sound ⟨hReader, placed_valid offset?⟩

theorem safe_translateVa {va : Nat} (h : s.reader.Sound) :
    (ctx.translateVa va).Safe s fun offset? s' => s'.reader = s.reader ∧ Placed offset? := by
  unfold translateVa
  dsimp only
  split
  · exact safe_translateRva h
  · exact .pure h ⟨rfl, placed_none⟩

theorem safe_requireRva {piece : Piece} {rva : UInt32} (h : s.reader.Sound) :
    (ctx.requireRva piece rva).Safe s fun offset _ => offset < 2 ^ 32 := by
  refine (safe_translateRva h).bind ?_
  intro offset? s₁ h₁ hPlaced
  cases offset? with
  | none => exact Scan.safe_fail h₁.sound
  | some offset => exact .pure h₁.sound (hPlaced.2 offset rfl)

theorem safe_stringAtRva {piece : Piece} {rva : UInt32} (h : s.reader.Sound) :
    (ctx.stringAtRva piece rva).Safe s fun _ _ => True := by
  refine (safe_requireRva h).bind ?_
  intro offset s₁ h₁ _
  exact ImageScan.safe_reading (Read.safe_stringAt h₁.sound)

theorem safe_presentDirectory {slot : Nat} (h : s.reader.Sound) :
    (ctx.presentDirectory slot).Safe s fun _ _ => True := by
  have emitted {event : Event} {d? : Option DataDirectory} {s : Session}
      (h : s.reader.Sound) :
      (do Scan.emit event; pure d? : ImageScan (Option DataDirectory)).Safe s
        fun _ _ => True := by
    refine (Scan.safe_emit h).bind ?_
    intro _ s₁ h₁ _
    exact .pure h₁.sound True.intro
  rw [presentDirectory]
  split
  · exact emitted h
  · split
    · exact emitted h
    · split
      · exact .pure h True.intro
      · dsimp only
        split
        · refine (Scan.safe_emit h).bind ?_
          intro _ s₁ h₁ _
          split
          · exact emitted h₁.sound
          · exact .pure h₁.sound True.intro
        · split
          · exact emitted h
          · exact .pure h True.intro

/-- A seek that is allowed to fail moves the cursor when it does not. -/
theorem safe_attempt_seek {offset : Nat} (h : s.reader.Sound) :
    (Scan.attempt (Read.seek offset) : ImageScan (Except ReadError Unit)).Safe s
      fun r s' => r = .ok () → s'.reader.position = offset := by
  apply Scan.Safe.attempt
  · exact (Read.safe_seek h).mono fun _ _ hSeek _ => hSeek
  · exact fun _ _ _ hOk => nomatch hOk

/-- Where the cursor is after entering: at the place, when there is one. -/
def Entered (offset? : Option Nat) (s : Session) : Prop :=
  offset?.isSome = true → s.reader.position < 2 ^ 32

theorem safe_enterDirectory {slot : Nat} (h : s.reader.Sound) :
    (ctx.enterDirectory slot).Safe s Entered := by
  have missed {event : Event} {s : Session} (h : s.reader.Sound) :
      (do Scan.emit event; pure none : ImageScan (Option Nat)).Safe s Entered := by
    refine (Scan.safe_emit h).bind ?_
    intro _ s₁ h₁ _
    exact .pure h₁.sound (fun hSome => nomatch hSome)
  refine (safe_presentDirectory h).bind ?_
  intro d? s₁ h₁ _
  cases d? with
  | none => exact .pure h₁.sound (fun hSome => nomatch hSome)
  | some d =>
      refine (safe_translateRva h₁.sound).bind ?_
      intro offset? s₂ h₂ hPlaced
      cases offset? with
      | none => exact missed h₂.sound
      | some offset =>
          refine (safe_attempt_seek h₂.sound).bind ?_
          intro r s₃ h₃ hSought
          cases r with
          | ok _ =>
              refine .pure h₃.sound fun _ => ?_
              rw [hSought rfl]
              exact hPlaced.2 offset rfl
          | error cause => exact missed h₃.sound

end Context

namespace Directory

variable {α : Type} {d : Directory α} {ctx : Context}

/-- A directory is loaded safely when reading it is safe wherever entering it leads to. -/
theorem safe_load (h : s.reader.Sound)
    (entering : ∀ s : Session, s.reader.Sound → (d.enter ctx).Safe s Context.Entered)
    (reading : ∀ s : Session, s.reader.Sound → s.reader.position < 2 ^ 32 →
      (d.read ctx).Safe s fun _ _ => True) :
    (d.load ctx).Safe s fun _ _ => True := by
  rw [load]
  split
  · refine (entering s h).bind ?_
    intro offset? s₁ h₁ hEntered
    cases offset? with
    | none => exact .pure h₁.sound True.intro
    | some offset =>
        apply Scan.Safe.within
        intro log
        exact (reading ⟨s₁.reader, log⟩ h₁.sound (hEntered rfl)).mono fun _ _ hRead _ => hRead
  · refine (Scan.safe_emit h).bind ?_
    intro _ s₁ h₁ _
    exact .pure h₁.sound True.intro

end Directory
end PortableExecutable
