import PortableExecutable.Proofs.Independence.Directories
import PortableExecutable.Proofs.Location.Places

/-!
Which directories are there. A directory is there when its slot declares an address, whatever the
size, and the address leads to a place other than 0 within the file. The certificates differ in one
thing: their address is the place. Entering a directory that is there moves the cursor to its place
and does nothing else. Loading one that is not there is as good as not asking for it.
-/

namespace PortableExecutable

namespace Context

variable {ctx : Context} {slot size place : Nat} {d : DataDirectory}

/-- One of the sixteen slots is declared with an address. Its size does not count. -/
structure Declares (ctx : Context) (slot : Nat) (d : DataDirectory) : Prop where
  slot_lt : slot < 16
  declared : ctx.headers.directory? slot = some d
  addressed : d.virtualAddress ≠ 0

theorem declared?_eq_some_iff : ctx.declared? slot = some d ↔ ctx.Declares slot d := by
  rw [declared?, DataDirectory.maxCount]
  split
  case isTrue inRange =>
    rw [Option.filter_eq_some_iff, decide_eq_true_eq]
    exact ⟨fun h => ⟨inRange, h.1, h.2⟩, fun h => ⟨h.declared, h.addressed⟩⟩
  case isFalse outOfRange =>
    exact iff_of_false (Option.some_ne_none d).symm fun h => outOfRange h.slot_lt

/-- The address that a slot declares leads to a place within a file of the given size. -/
def Holds (ctx : Context) (leads : Nat → Nat → Prop) (slot size place : Nat) : Prop :=
  ∃ d, ctx.Declares slot d ∧ leads d.virtualAddress.toNat place ∧ place ≤ size

theorem place?_eq_some_iff :
    ctx.place? slot size = some place ↔ ctx.Holds ctx.PutsAt slot size place := by
  simp only [place?, Holds, Option.filter_eq_some_iff, Option.bind_eq_some_iff,
    declared?_eq_some_iff, placeOf?_eq_some_iff, decide_eq_true_eq, ← exists_and_right, and_assoc]

/-- A directory without a size, at the very end of the file. -/
example : (Context.mk { directories := [⟨0, 0⟩, ⟨4, 0⟩] } {}).place? 1 4 = some 4 := by
  decide +kernel

end Context

theorem Certificate.place?_eq_some_iff {ctx : Context} {size place : Nat} :
    place? ctx size = some place ↔ ctx.Holds Eq 4 size place := by
  simp only [place?, Context.Holds, Option.filter_eq_some_iff, Option.map_eq_some_iff,
    Context.declared?_eq_some_iff, decide_eq_true_eq, ← exists_and_right, and_assoc]

/-- From the session the computation finds the places that are held, which is one at most. It moves
the cursor to the place that it finds, and leaves the reader as it is when there is none. -/
structure Scan.Enters (act : ImageScan (Option Nat)) (s : Session) (Held : Nat → Prop) : Prop where
  found_iff : ∀ place, (∃ s', act s = .ok (some place) s') ↔ Held place
  found : ∀ place, Held place →
    act.Gives s (some place) (s.reader.moved place s.reader.bytesRead)
  absent : (∀ place, ¬ Held place) → act.Gives s none s.reader

namespace Scan

variable {ε α : Type} {act : ImageScan (Option Nat)} {s : Session}

theorem Gives.outcome_eq {act : Scan ε α} {a : α} {r : Reader} (h : act.Gives s a r) :
    act.outcome s = ⟨.ok a, r.position, r.bytesRead⟩ := by
  obtain ⟨log, hAct⟩ := h
  exact outcome_of_ok hAct

theorem Gives.enters {place? : Option Nat} {Held : Nat → Prop}
    (gives : act.Gives s place? (s.reader.at? place?))
    (held_iff : ∀ place, place? = some place ↔ Held place) : act.Enters s Held where
  found_iff place := by
    rw [← held_iff]
    obtain ⟨log, hAct⟩ := gives
    constructor
    · rintro ⟨s', hFound⟩
      rw [hAct] at hFound
      cases hFound
      rfl
    · rintro rfl
      exact ⟨_, hAct⟩
  found place held := by
    obtain rfl := (held_iff place).mpr held
    exact gives
  absent notHeld := by
    have hNone : place? = none :=
      Option.eq_none_iff_forall_ne_some.mpr fun place h => notHeld place ((held_iff place).mp h)
    subst hNone
    exact gives

end Scan

theorem Context.enters_enterDirectory {ctx : Context} {slot : Nat} {s : Session} :
    (ctx.enterDirectory slot).Enters s (ctx.Holds ctx.PutsAt slot s.reader.size) :=
  gives_enterDirectory.enters fun _ => place?_eq_some_iff

theorem Certificate.enters_enter {ctx : Context} {s : Session} :
    (enter ctx).Enters s (ctx.Holds Eq 4 s.reader.size) :=
  gives_enter.enters fun _ => place?_eq_some_iff

namespace DirectoryKind

variable {ctx : Context} {s : Session}

/-- The slot that declares a kind of directory. -/
def slot : DirectoryKind → Nat
  | exports => 0
  | imports => 1
  | resources => 2
  | certificates => 4
  | relocations => 5
  | debug => 6
  | tls => 9

/-- Where a kind of directory is in a file of the given size. -/
def Held (kind : DirectoryKind) (ctx : Context) (size place : Nat) : Prop :=
  ctx.Holds (if kind = certificates then Eq else ctx.PutsAt) kind.slot size place

theorem enters_enter (kind : DirectoryKind) :
    (kind.directory.enter ctx).Enters s (kind.Held ctx s.reader.size) := by
  cases kind with
  | certificates => exact Certificate.enters_enter
  | _ => exact Context.enters_enterDirectory

theorem absent_eq (kind : DirectoryKind) :
    kind.directory.absent = ({} : Directories).get kind := by
  cases kind <;> rfl

/-- What comes of loading a kind of directory. -/
structure Loads (kind : DirectoryKind) (ctx : Context) (s : Session) : Prop where
  held : kind.directory.enabled ctx.options = true → ∀ place, kind.Held ctx s.reader.size place →
    ∃ log, kind.directory.load ctx s =
      Scan.within .parseDirectory (kind.directory.read ctx)
        ⟨s.reader.moved place s.reader.bytesRead, log⟩
  skipped : kind.directory.enabled ctx.options = false ∨
      (∀ place, ¬ kind.Held ctx s.reader.size place) →
    (kind.directory.load ctx).Gives s (({} : Directories).get kind) s.reader
  as_disabled : (∀ place, ¬ kind.Held ctx s.reader.size place) →
    ∀ kept : DirectoryKind → Bool, kept kind = false →
      (kind.directory.load ctx).outcome s =
        (kind.directory.load (ctx.restricted kept)).outcome s

theorem gives_load_of_not_enabled {kind : DirectoryKind}
    (disabled : kind.directory.enabled ctx.options = false) :
    (kind.directory.load ctx).Gives s (({} : Directories).get kind) s.reader := by
  rw [Directory.load, disabled, ← absent_eq]
  exact Scan.gives_emit_bind

theorem gives_load_of_not_held {kind : DirectoryKind}
    (notHeld : ∀ place, ¬ kind.Held ctx s.reader.size place) :
    (kind.directory.load ctx).Gives s (({} : Directories).get kind) s.reader := by
  cases hEnabled : kind.directory.enabled ctx.options with
  | false => exact gives_load_of_not_enabled hEnabled
  | true =>
      rw [Directory.load, hEnabled, ← absent_eq]
      exact (kind.enters_enter.absent notHeld).bind fun _ => Scan.gives_pure

theorem loads (kind : DirectoryKind) (ctx : Context) (s : Session) : kind.Loads ctx s where
  held enabled place held := by
    obtain ⟨log, hEnter⟩ := kind.enters_enter.found place held
    refine ⟨log, ?_⟩
    rw [Directory.load, enabled]
    exact Scan.bind_of_ok hEnter
  skipped := by
    rintro (disabled | notHeld)
    · exact gives_load_of_not_enabled disabled
    · exact gives_load_of_not_held notHeld
  as_disabled notHeld kept dropped := by
    have disabled : kind.directory.enabled (ctx.restricted kept).options = false := by
      have h : kind.directory.enabled (ctx.options.restricted kept) =
          (kind.directory.enabled ctx.options && kept kind) := kind.enabled_restricted ctx.options
      rwa [dropped, Bool.and_false] at h
    rw [(gives_load_of_not_held notHeld).outcome_eq,
      (gives_load_of_not_enabled disabled).outcome_eq]

end DirectoryKind

/-- From the session every directory is found exactly where it is, and is passed over without a
trace where it is not. -/
structure Context.Locates (ctx : Context) (s : Session) : Prop where
  slot : ∀ slot, (ctx.enterDirectory slot).Enters s (ctx.Holds ctx.PutsAt slot s.reader.size)
  certificates : (Certificate.enter ctx).Enters s (ctx.Holds Eq 4 s.reader.size)
  loads : ∀ kind : DirectoryKind, kind.Loads ctx s

theorem Context.directories_located (ctx : Context) (s : Session) : ctx.Locates s where
  slot _ := enters_enterDirectory
  certificates := Certificate.enters_enter
  loads kind := kind.loads ctx s

end PortableExecutable
