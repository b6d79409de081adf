import PortableExecutable.Proofs.Budget.Coupling
import PortableExecutable.Proofs.Coupling.Attempts

/-!
Imports and resources under two read budgets. Both go on without a name that cannot be read, and
do not ask why. A name that the budget refuses is then missing from a result that counts as whole,
and the bytes it would have taken are left to the reads behind it. The log tells: where it shows no
refusal, a larger budget changes nothing.
-/

namespace PortableExecutable

open Coupling

/-- A read that the budget did not cover. -/
def Event.isRefusal : Event → Bool
  | .readLimitExceeded .. => true
  | _ => false

/-- The log shows a read that the budget did not cover. -/
def ShowsRefusal (log : Array LogEntry) : Prop := log.any (·.event.isRefusal) = true

instance (log : Array LogEntry) : Decidable (ShowsRefusal log) :=
  inferInstanceAs (Decidable (_ = true))

/-- The session that a computation leaves behind, whether it delivers or stops. -/
def Scan.after {ε α : Type} (act : Scan ε α) (s : Session) : Session :=
  match act s with
  | .ok _ s' => s'
  | .error _ s' => s'

/-- Under a larger budget the computation comes to the same, unless the smaller one refused a
read. -/
def Scan.SameUnlessRefused {ε α : Type} (act : Scan ε α) (s : Session) (small large : UInt64) :
    Prop :=
  ShowsRefusal (act.after (s.withBudget small)).log ∨
    act.outcome (s.withBudget small) = act.outcome (s.withBudget large)

/-- The first run is let off once its log shows a refusal. Every stop of it counts. -/
def Coupling.untilRefused : Coupling := betweenBudgets ShowsRefusal fun _ => False

namespace Coupling

theorem lawful_untilRefused : untilRefused.Lawful := by
  apply lawful_betweenBudgets
  case refused =>
    refine fun r length => .inr fun log => ?_
    rw [ShowsRefusal, Array.any_push, Bool.or_eq_true]
    exact .inr rfl
  case pushed =>
    intro log shows entry
    rw [ShowsRefusal, Array.any_push, Bool.or_eq_true]
    exact .inl shows
  case isRefusal => exact False.elim

theorem recovers_untilRefused : untilRefused.Recovers := fun _ => id

theorem sameUnlessRefused {α : Type} {act : ImageScan α} (h : act.Respects untilRefused)
    (s : Session) {small large : UInt64} (le : small ≤ large) :
    act.SameUnlessRefused s small large := by
  obtain same | ⟨_, _, _, _, _, impossible⟩ | parted := outcome_of_respects (s := s) h le
  case inl => exact .inr same
  case inr.inl => exact impossible.elim
  case inr.inr =>
    refine .inl ?_
    rw [Scan.Leads] at parted
    rw [Scan.after]
    cases hRun : act (s.withBudget small) with
    | ok _ s' =>
        rw [hRun] at parted
        exact parted
    | error _ s' =>
        rw [hRun] at parted
        exact parted

end Coupling

theorem names_same_unless_refused (ctx : Context) (s : Session) {small large : UInt64}
    (le : small ≤ large) :
    (Import.read ctx).SameUnlessRefused s small large ∧
      (Resource.read ctx).SameUnlessRefused s small large :=
  ⟨sameUnlessRefused
      (Import.respects_read lawful_untilRefused recovers_untilRefused) s le,
    sameUnlessRefused
      (Resource.respects_read lawful_untilRefused recovers_untilRefused) s le⟩

/-- One library `a` with one function, whose name of 24 letters stands at the end of the file. -/
def oneImport : Session where
  reader :=
    { label := "memory"
      content := ⟨#[0, 0, 0, 0,
        44, 0, 0, 0, 0, 0, 0, 0, 0, 0, 0, 0, 52, 0, 0, 0, 0, 0, 0, 0,
        0, 0, 0, 0, 0, 0, 0, 0, 0, 0, 0, 0, 0, 0, 0, 0, 0, 0, 0, 0,
        54, 0, 0, 0, 0, 0, 0, 0, 97, 0, 7, 0] ++ Array.replicate 24 102 ++ #[0]⟩
      limits := {}
      position := 4 }

/-- One resource, whose name of nine letters stands at the end of the file. -/
def oneResource : Session where
  reader :=
    { label := "memory"
      content := ⟨#[0, 0, 0, 0,
        0, 0, 0, 0, 0, 0, 0, 0, 0, 0, 0, 0, 1, 0, 0, 0, 40, 0, 0, 0x80, 24, 0, 0, 0,
        0, 16, 0, 0, 5, 0, 0, 0, 0, 0, 0, 0, 0, 0, 0, 0,
        9, 0, 65, 0, 66, 0, 67, 0, 68, 0, 69, 0, 70, 0, 71, 0, 72, 0, 73, 0]⟩
      limits := {}
      position := 4 }

/-- The names of the functions, where the imports were read. -/
def importedNames (budget : UInt64) : Option (List (Option String)) :=
  ((Import.read ⟨{}, {}⟩).delivered? (oneImport.withBudget budget)).map
    fun table => table.entries.map (·.name)

/-- The paths of the leaves, where the resources were read. -/
def resourcePaths (budget : UInt64) : Option (List (List ResourceId)) :=
  ((Resource.read ⟨{}, {}⟩).delivered? (oneResource.withBudget budget)).map
    fun leaves => leaves.map (·.path)

theorem importedNames_covered :
    importedNames 77 = some [some "ffffffffffffffffffffffff"] := by decide +kernel

theorem resourcePaths_covered : resourcePaths 60 = some [[.name "ABCDEFGHI"]] := by
  decide +kernel

/-- The smaller budgets are the least that cover everything. -/
theorem names_same_unless_refused_whole :
    let imports : ImageScan ImportTable := Import.read ⟨{}, {}⟩
    let resources : ImageScan (List ResourceEntry) := Resource.read ⟨{}, {}⟩
    (77 : UInt64) ≤ 4096 ∧
      imports.outcome (oneImport.withBudget 77) = imports.outcome (oneImport.withBudget 4096) ∧
      importedNames 77 = some [some "ffffffffffffffffffffffff"] ∧
      (60 : UInt64) ≤ 4096 ∧
      resources.outcome (oneResource.withBudget 60) =
        resources.outcome (oneResource.withBudget 4096) ∧
      resourcePaths 60 = some [[.name "ABCDEFGHI"]] := by
  intro imports resources
  have noImportRefused : ¬ ShowsRefusal (imports.after (oneImport.withBudget 77)).log := by
    decide +kernel
  have noResourceRefused : ¬ ShowsRefusal (resources.after (oneResource.withBudget 60)).log := by
    decide +kernel
  have imports_le : (77 : UInt64) ≤ 4096 := by decide
  have resources_le : (60 : UInt64) ≤ 4096 := by decide
  have hImports := (names_same_unless_refused ⟨{}, {}⟩ oneImport imports_le).1
  have hResources := (names_same_unless_refused ⟨{}, {}⟩ oneResource resources_le).2
  exact ⟨imports_le, hImports.resolve_left noImportRefused, importedNames_covered,
    resources_le, hResources.resolve_left noResourceRefused, resourcePaths_covered⟩

/-- A smaller budget leaves the name out of a result that is delivered all the same; the budget that
just covers the name refuses what comes after it; and the whole needs more than both. -/
theorem names_refused_silently :
    importedNames 52 = some [none] ∧ importedNames 53 = none ∧
      importedNames 77 = some [some "ffffffffffffffffffffffff"] ∧
      resourcePaths 42 = some [[.id 40]] ∧ resourcePaths 44 = none ∧
      resourcePaths 60 = some [[.name "ABCDEFGHI"]] ∧
      (¬ ∀ (s : Session) (small large : UInt64), small ≤ large → ∀ table,
        (Import.read ⟨{}, {}⟩).delivered? (s.withBudget small) = some table →
          (Import.read ⟨{}, {}⟩).delivered? (s.withBudget large) = some table) ∧
      ¬ ∀ (s : Session) (small large : UInt64), small ≤ large → ∀ leaves,
        (Resource.read ⟨{}, {}⟩).delivered? (s.withBudget small) = some leaves →
          (Resource.read ⟨{}, {}⟩).delivered? (s.withBudget large) = some leaves := by
  have hNameless : importedNames 52 = some [none] := by decide +kernel
  have hFails : importedNames 53 = none := by decide +kernel
  have hNamed := importedNames_covered
  have hByOffset : resourcePaths 42 = some [[.id 40]] := by decide +kernel
  have hFails' : resourcePaths 44 = none := by decide +kernel
  have hByName := resourcePaths_covered
  refine ⟨hNameless, hFails, hNamed, hByOffset, hFails', hByName, ?_, ?_⟩
  · intro kept
    obtain ⟨table, hTable, hNone⟩ := Option.map_eq_some_iff.mp hNameless
    have hKept := kept oneImport 52 77 (by decide) table hTable
    rw [importedNames, hKept, Option.map_some, hNone] at hNamed
    exact absurd hNamed (by decide)
  · intro kept
    obtain ⟨leaves, hLeaves, hId⟩ := Option.map_eq_some_iff.mp hByOffset
    have hKept := kept oneResource 42 60 (by decide) leaves hLeaves
    rw [resourcePaths, hKept, Option.map_some, hId] at hByName
    exact absurd hByName (by decide)

end PortableExecutable
