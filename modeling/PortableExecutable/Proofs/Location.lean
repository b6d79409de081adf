import PortableExecutable.Certificate
import PortableExecutable.Proofs.Reader.Steps

/-!
Where a directory is entered. The place follows from the headers and from the size of the file.
Entering asks for nothing else and never stops: it moves the cursor to that place, or there is none
and the reader stays as it is.
-/

namespace PortableExecutable

/-- The reader with its cursor at a place, or as it is when there is none. -/
def Reader.at? (r : Reader) (place? : Option Nat) : Reader :=
  place?.elim r (r.moved · r.bytesRead)

namespace Scan

variable {ε α β : Type}

/-- From the session `s` the computation delivers `a`, and all it does is to leave the reader as
`r` and to log. -/
def Gives (act : Scan ε α) (s : Session) (a : α) (r : Reader) : Prop :=
  ∃ log, act s = .ok a ⟨r, log⟩

variable {act : Scan ε α} {next : α → Scan ε β} {s : Session} {a : α} {b : β} {r r' : Reader}

theorem gives_pure : Gives (pure a : Scan ε α) s a s.reader := ⟨s.log, rfl⟩

theorem gives_emit {event : Event} : Gives (emit event : Scan ε Unit) s () s.reader := ⟨_, rfl⟩

theorem Gives.bind (first : act.Gives s a r) (rest : ∀ log, (next a).Gives ⟨r, log⟩ b r') :
    (act >>= next).Gives s b r' := by
  obtain ⟨log, hAct⟩ := first
  obtain ⟨log', hNext⟩ := rest log
  exact ⟨log', (bind_of_ok hAct).trans hNext⟩

/-- An event and then a value. -/
theorem gives_emit_bind {event : Event} :
    Gives (do emit event; pure a : Scan ε α) s a s.reader :=
  gives_emit.bind fun _ => gives_pure

end Scan

namespace SectionTable

theorem gives_translate {ε : Type} {t : SectionTable} {rva : Nat} {s : Session} :
    Scan.Gives (t.translate rva : Scan ε (Option UInt32)) s (t.offsetOfRva? rva) s.reader := by
  rw [translate, offsetOfRva?]
  cases t.locate rva with
  | ok offset => exact Scan.gives_pure
  | error reason =>
      cases reason with
      | atOffsetZero => exact Scan.gives_emit_bind
      | outsideSections => exact Scan.gives_emit_bind

end SectionTable

namespace Context

variable {ctx : Context} {slot : Nat} {s : Session}

/-- The declared entry of a slot that has an address. -/
def declared? (ctx : Context) (slot : Nat) : Option DataDirectory :=
  if slot < DataDirectory.maxCount then
    (ctx.headers.directory? slot).filter (·.virtualAddress ≠ 0)
  else none

/-- The place of an address in the file, whatever the size of the file. -/
def placeOf? (ctx : Context) (rva : Nat) : Option Nat :=
  valid (ctx.headers.sections.offsetOfRva? rva)

/-- Where the directory of a slot is entered in a file of the given size. -/
def place? (ctx : Context) (slot size : Nat) : Option Nat :=
  ((ctx.declared? slot).bind fun d => ctx.placeOf? d.virtualAddress.toNat).filter (· ≤ size)

theorem gives_translateRva {rva : Nat} :
    (ctx.translateRva rva).Gives s (ctx.placeOf? rva) s.reader :=
  SectionTable.gives_translate.bind fun _ => Scan.gives_pure

/-- The place of an absolute address in the file. -/
def placeOfVa? (ctx : Context) (va : Nat) : Option Nat :=
  if va > ctx.headers.imageBase.toNat then ctx.placeOf? (va - ctx.headers.imageBase.toNat) else none

theorem gives_translateVa {va : Nat} :
    (ctx.translateVa va).Gives s (ctx.placeOfVa? va) s.reader := by
  rw [translateVa, placeOfVa?]
  split
  · exact gives_translateRva
  · exact Scan.gives_pure

theorem gives_presentDirectory :
    (ctx.presentDirectory slot).Gives s (ctx.declared? slot) s.reader := by
  rw [presentDirectory, declared?]
  by_cases hSlot : slot < DataDirectory.maxCount
  case neg =>
    rw [if_neg hSlot, if_pos (Nat.le_of_not_lt hSlot)]
    exact Scan.gives_emit_bind
  case pos =>
    rw [if_pos hSlot, if_neg (Nat.not_le_of_lt hSlot)]
    cases ctx.headers.directory? slot with
    | none => exact Scan.gives_emit_bind
    | some d =>
        by_cases hAddress : d.virtualAddress = 0
        case pos =>
          rw [Option.filter_some_neg (by simpa using hAddress)]
          dsimp only
          split
          · exact Scan.gives_pure
          · split
            · exact Scan.gives_emit.bind fun _ => Scan.gives_emit_bind
            · exact Scan.gives_emit_bind
        case neg =>
          have hStored : ¬ d.isEmpty = true := by simp [DataDirectory.isEmpty, hAddress]
          rw [Option.filter_some_pos (by simpa using hAddress)]
          dsimp only
          rw [if_neg hStored]
          split
          · exact Scan.gives_emit.bind fun _ => Scan.gives_pure
          · exact Scan.gives_pure

/-- Moving the cursor to where a directory would begin, and saying so when that is past the end. -/
theorem gives_seek {offset : Nat} {event : ReadError → Event} :
    Scan.Gives
      (do match ← Scan.attempt (Read.seek offset) with
          | .ok () => return some offset
          | .error cause =>
            Scan.emit (event cause)
            return none : ImageScan (Option Nat))
      s ((some offset).filter (· ≤ s.reader.size))
      (s.reader.at? ((some offset).filter (· ≤ s.reader.size))) := by
  by_cases inside : offset ≤ s.reader.size
  case pos =>
    have hSeek : (Scan.attempt (Read.seek offset) : ImageScan _) s =
        .ok (.ok ()) ⟨s.reader.moved offset s.reader.bytesRead, s.log⟩ := by
      rw [Scan.attempt, Read.seek_of_le inside]
    rw [Option.filter_some_pos (by simpa using inside)]
    exact ⟨s.log, Scan.bind_of_ok hSeek⟩
  case neg =>
    have hSeek : (Scan.attempt (Read.seek offset) : ImageScan _) s =
        .ok (.error (.outOfBounds offset s.reader.size)) s := by
      rw [Scan.attempt, Read.seek_of_not_le inside]
    rw [Option.filter_some_neg (by simpa using inside)]
    exact ⟨_, Scan.bind_of_ok hSeek⟩

theorem gives_enterDirectory :
    (ctx.enterDirectory slot).Gives s (ctx.place? slot s.reader.size)
      (s.reader.at? (ctx.place? slot s.reader.size)) := by
  rw [place?]
  refine gives_presentDirectory.bind fun log => ?_
  cases ctx.declared? slot with
  | none => exact Scan.gives_pure
  | some d =>
      refine gives_translateRva.bind fun log => ?_
      rw [Option.bind_some]
      cases ctx.placeOf? d.virtualAddress.toNat with
      | none => exact Scan.gives_emit_bind
      | some offset => exact gives_seek

end Context

namespace Certificate

/-- The certificates are entered at their address itself. -/
def place? (ctx : Context) (size : Nat) : Option Nat :=
  ((ctx.declared? 4).map (·.virtualAddress.toNat)).filter (· ≤ size)

theorem gives_enter {ctx : Context} {s : Session} :
    (enter ctx).Gives s (place? ctx s.reader.size)
      (s.reader.at? (place? ctx s.reader.size)) := by
  rw [place?]
  refine Context.gives_presentDirectory.bind fun log => ?_
  cases ctx.declared? 4 with
  | none => exact Scan.gives_pure
  | some d => exact Context.gives_seek

end Certificate
end PortableExecutable
