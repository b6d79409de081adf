import PortableExecutable.Proofs.Tls
import PortableExecutable.Proofs.Caps.Import
import PortableExecutable.Proofs.Caps.Resource

/-!
What the caps on imports, callbacks and resources do: they cut the result, and nothing else. A run
under a cap never delivers more than the cap allows; and where a larger cap lets a run deliver, the
smaller one does too, and delivers the beginning of the same.
-/

namespace PortableExecutable

open Scan

/-- The directory with its first callbacks alone. -/
def TlsDirectory.takeCallbacks (tls : TlsDirectory) (count : Nat) : TlsDirectory :=
  { tls with callbacks := tls.callbacks.take count }

namespace Tls

variable {ctx : Context} {cap cap' : UInt64} {room room' known : Nat}

theorem yields_readCallbacks : (readCallbacks ctx room known).Yields (·.length ≤ room) := by
  induction room generalizing known with
  | zero => exact yields_after fun _ => yields_pure (Nat.le_refl 0)
  | succ room ih =>
      refine yields_after fun callback? => ?_
      cases callback? with
      | none => exact yields_after fun _ => yields_pure (Nat.zero_le _)
      | some callback =>
          dsimp only
          split
          · exact yields_pure (Nat.zero_le _)
          · exact ih.bind fun rest hRest => yields_pure (Nat.succ_le_succ hRest)

theorem capped_readCallbacks (le : room ≤ room') :
    Capped (CutTo room) (readCallbacks (ctx.withMaxTlsCallbacks cap) room known)
      (readCallbacks (ctx.withMaxTlsCallbacks cap') room' known) := by
  induction room generalizing room' known with
  | zero => exact (ends_emit fun _ _ _ _ => CutTo.nil).capped
  | succ room ih =>
      obtain ⟨room', rfl⟩ : ∃ n, room' = n + 1 := ⟨room' - 1, by omega⟩
      refine capped_after fun callback? => ?_
      cases callback? with
      | none => exact capped_refl
      | some callback =>
          dsimp only
          split
          · exact capped_refl
          · refine (ih (Nat.le_of_succ_le_succ le)).bind yields_any (fun _ _ => capped_refl) ?_
            exact fun _ _ hCut => ends_pure (yields_pure hCut.cons)

theorem yields_read : (read ctx).Yields fun tls? =>
    ∀ tls ∈ tls?, tls.callbacks.length ≤ ctx.options.maxTlsCallbacks.toNat := by
  rw [read_eq]
  refine yields_after fun record => yields_after fun place? => ?_
  cases place? with
  | none => exact yields_fail
  | some place =>
      refine yields_after fun _ => yields_readCallbacks.bind fun callbacks hCallbacks => ?_
      refine yields_after fun _ => yields_pure ?_
      rintro tls ⟨⟩
      exact hCallbacks

theorem capped_read (le : cap ≤ cap') :
    Capped (fun tls? tls?' => tls? = tls?'.map (·.takeCallbacks cap.toNat))
      (read (ctx.withMaxTlsCallbacks cap)) (read (ctx.withMaxTlsCallbacks cap')) := by
  have hLe : cap.toNat ≤ cap'.toNat := le
  rw [read_eq, read_eq]
  refine capped_after fun record => capped_after fun place? => ?_
  cases place? with
  | none => exact capped_refl
  | some place =>
      refine capped_after fun _ => ?_
      refine (capped_readCallbacks hLe).bind yields_any (fun _ _ => capped_refl) ?_
      intro callbacks callbacks' hCut
      refine ends_emit (yields_after fun _ => yields_pure ?_)
      exact congrArg (fun callbacks => some { record with callbacks }) hCut.eq_take

end Tls

namespace Context

/-- The cap on imports cuts the list of descriptors in its last one. -/
structure ImportsCapped (ctx : Context) (s : Session) (cap cap' : UInt64) : Prop where
  count_le : ∀ table s', Import.read (ctx.withMaxImports cap) s = .ok table s' →
    table.count ≤ cap.toNat
  truncates : ∀ table' s₂, Import.read (ctx.withMaxImports cap') s = .ok table' s₂ →
    ∃ table s₁, Import.read (ctx.withMaxImports cap) s = .ok table s₁ ∧
      (table.descriptors = table'.descriptors ∨
        ImportDescriptor.CutShort table.descriptors table'.descriptors) ∧
      table.entries = table'.entries.take cap.toNat

structure CallbacksCapped (ctx : Context) (s : Session) (cap cap' : UInt64) : Prop where
  count_le : ∀ tls? s', Tls.read (ctx.withMaxTlsCallbacks cap) s = .ok tls? s' →
    ∀ tls ∈ tls?, tls.callbacks.length ≤ cap.toNat
  truncates : ∀ tls?' s₂, Tls.read (ctx.withMaxTlsCallbacks cap') s = .ok tls?' s₂ →
    ∃ s₁, Tls.read (ctx.withMaxTlsCallbacks cap) s =
      .ok (tls?'.map (·.takeCallbacks cap.toNat)) s₁

structure ResourcesCapped (ctx : Context) (s : Session) (cap cap' : UInt64) : Prop where
  count_le : ∀ leaves s', Resource.read (ctx.withMaxResourceEntries cap) s = .ok leaves s' →
    leaves.length ≤ cap.toNat
  truncates : ∀ leaves' s₂, Resource.read (ctx.withMaxResourceEntries cap') s = .ok leaves' s₂ →
    ∃ s₁, Resource.read (ctx.withMaxResourceEntries cap) s = .ok (leaves'.take cap.toNat) s₁

variable {ctx : Context} {s : Session} {cap cap' : UInt64}

theorem importsCapped (le : cap ≤ cap') : ctx.ImportsCapped s cap cap' := by
  have count_le : ∀ table s', Import.read (ctx.withMaxImports cap) s = .ok table s' →
      table.count ≤ cap.toNat := fun table s' => Import.yields_read s table s'
  refine ⟨count_le, fun table' s₂ hRun => ?_⟩
  obtain ⟨table, s₁, hCapped, ⟨rfl, rfl⟩ | hCut⟩ := Import.capped_read le s table' s₂ hRun
  · exact ⟨table, s₁, hCapped, .inl rfl, (List.take_of_length_le (count_le _ _ hCapped)).symm⟩
  · exact ⟨table, s₁, hCapped, .inr hCut.short, hCut.entries.eq_take⟩

theorem callbacksCapped (le : cap ≤ cap') : ctx.CallbacksCapped s cap cap' := by
  have count_le : ∀ tls? s', Tls.read (ctx.withMaxTlsCallbacks cap) s = .ok tls? s' →
      ∀ tls ∈ tls?, tls.callbacks.length ≤ cap.toNat := fun tls? s' => Tls.yields_read s tls? s'
  refine ⟨count_le, fun tls?' s₂ hRun => ?_⟩
  obtain ⟨tls?, s₁, hCapped, ⟨rfl, rfl⟩ | rfl⟩ := Tls.capped_read le s tls?' s₂ hRun
  · refine ⟨s₁, ?_⟩
    have hWhole : tls?.map (·.takeCallbacks cap.toNat) = tls? := by
      cases tls? with
      | none => rfl
      | some tls =>
          rw [Option.map_some, TlsDirectory.takeCallbacks,
            List.take_of_length_le (count_le _ _ hCapped tls rfl)]
    rwa [hWhole]
  · exact ⟨s₁, hCapped⟩

theorem resourcesCapped (le : cap ≤ cap') : ctx.ResourcesCapped s cap cap' := by
  have count_le : ∀ leaves s',
      Resource.read (ctx.withMaxResourceEntries cap) s = .ok leaves s' →
        leaves.length ≤ cap.toNat := fun leaves s' => Resource.yields_read s leaves s'
  refine ⟨count_le, fun leaves' s₂ hRun => ?_⟩
  obtain ⟨leaves, s₁, hCapped, ⟨rfl, rfl⟩ | hCut⟩ := Resource.capped_read le s leaves' s₂ hRun
  · rw [List.take_of_length_le (count_le _ _ hCapped)]
    exact ⟨s₁, hCapped⟩
  · rw [← hCut.eq_take]
    exact ⟨s₁, hCapped⟩

/-- Wherever the reader stands and whatever its budget is, each cap truncates and does nothing
else. -/
theorem caps_truncate (ctx : Context) (s : Session) {cap cap' : UInt64} (le : cap ≤ cap') :
    ctx.ImportsCapped s cap cap' ∧ ctx.CallbacksCapped s cap cap' ∧
      ctx.ResourcesCapped s cap cap' :=
  ⟨importsCapped le, callbacksCapped le, resourcesCapped le⟩

/-- Two libraries with one function each, both of them named by the same thunk. -/
def twoLibraries : Session where
  reader :=
    { label := "memory"
      content := ⟨#[0, 0, 0, 0,
        64, 0, 0, 0, 0, 0, 0, 0, 0, 0, 0, 0, 72, 0, 0, 0, 0, 0, 0, 0,
        64, 0, 0, 0, 0, 0, 0, 0, 0, 0, 0, 0, 72, 0, 0, 0, 0, 0, 0, 0,
        0, 0, 0, 0, 0, 0, 0, 0, 0, 0, 0, 0, 0, 0, 0, 0, 0, 0, 0, 0,
        7, 0, 0, 0x80, 0, 0, 0, 0, 97, 0]⟩
      limits := {}
      position := 4 }

def twoCallbacks : Session where
  reader :=
    { label := "memory"
      content := ⟨#[0, 0, 0, 0, 0, 0, 0, 0, 0, 0, 0, 0, 24, 0, 0, 0, 0, 0, 0, 0, 0, 0, 0, 0,
        5, 0, 0, 0, 6, 0, 0, 0, 0, 0, 0, 0]⟩
      limits := {} }

/-- Two slots that lead to the same leaf. -/
def twoLeaves : Session where
  reader :=
    { label := "memory"
      content := ⟨#[0, 0, 0, 0, 0, 0, 0, 0, 0, 0, 0, 0, 0, 0, 2, 0,
        1, 0, 0, 0, 32, 0, 0, 0, 2, 0, 0, 0, 32, 0, 0, 0,
        0, 16, 0, 0, 5, 0, 0, 0, 0, 0, 0, 0, 0, 0, 0, 0]⟩
      limits := {} }

/-- Caps of one where there are two. -/
theorem caps_truncate_one :
    let ctx : Context := ⟨{}, {}⟩
    (1 : UInt64) ≤ 2 ∧ ctx.ImportsCapped twoLibraries 1 2 ∧ ctx.CallbacksCapped twoCallbacks 1 2 ∧
      ctx.ResourcesCapped twoLeaves 1 2 ∧
      (((Import.read (ctx.withMaxImports 1)).delivered? twoLibraries).map
        (·.descriptors.map (·.entries.length))) = some [1] ∧
      (((Import.read (ctx.withMaxImports 2)).delivered? twoLibraries).map
        (·.descriptors.map (·.entries.length))) = some [1, 1] ∧
      (((Tls.read (ctx.withMaxTlsCallbacks 2)).delivered? twoCallbacks).map
        (·.map (·.callbacks))) = some (some [5, 6]) ∧
      (((Resource.read (ctx.withMaxResourceEntries 2)).delivered? twoLeaves).map
        (·.map (·.path))) = some [[.id 1], [.id 2]] := by
  intro ctx
  have le : (1 : UInt64) ≤ 2 := by decide
  exact ⟨le, (caps_truncate ctx twoLibraries le).1, (caps_truncate ctx twoCallbacks le).2.1,
    (caps_truncate ctx twoLeaves le).2.2, by decide +kernel, by decide +kernel,
    by decide +kernel, by decide +kernel⟩

end Context
end PortableExecutable
