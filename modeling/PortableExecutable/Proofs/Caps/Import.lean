import PortableExecutable.Import
import PortableExecutable.Proofs.Caps.Rules

/-!
The cap on imports. It is shared by all descriptors: each table of thunks gets what the tables
before it have left, so the cap may end a run inside a table or behind its last thunk. Either way
the descriptor it ends in is the last one.
-/

namespace PortableExecutable

/-- The descriptors of the first list are those of the second one up to a last descriptor, which
may have lost entries at its end. -/
inductive ImportDescriptor.CutShort : List ImportDescriptor → List ImportDescriptor → Prop
  | last (d : ImportDescriptor) (kept : Nat) (rest : List ImportDescriptor) :
      CutShort [{ d with entries := d.entries.take kept }] (d :: rest)
  | later (d : ImportDescriptor) {ds ds' : List ImportDescriptor} :
      CutShort ds ds' → CutShort (d :: ds) (d :: ds')

namespace ImportDescriptor

theorem CutShort.entries_isPrefix {ds ds' : List ImportDescriptor} (h : CutShort ds ds') :
    (ImportTable.mk ds).entries <+: (ImportTable.mk ds').entries := by
  simp only [ImportTable.entries]
  induction h with
  | last d kept rest =>
      rw [List.flatMap_cons, List.flatMap_cons, List.flatMap_nil, List.append_nil]
      exact (List.take_prefix _ _).trans (List.prefix_append _ _)
  | later d _ ih =>
      rw [List.flatMap_cons, List.flatMap_cons]
      exact (List.prefix_append_right_inj _).mpr ih

end ImportDescriptor

namespace Import

open Scan ImportDescriptor

variable {ctx : Context} {cap cap' : UInt64} {d : ImportDescriptor} {room room' : Nat}

theorem yields_readEntries {table index : Nat} :
    (readEntries ctx d table room index).Yields (·.length ≤ room) := by
  induction room generalizing index with
  | zero => exact yields_pure (Nat.le_refl 0)
  | succ room ih =>
      refine yields_after fun _ => yields_after fun thunk => ?_
      split
      · exact yields_pure (Nat.zero_le _)
      · refine yields_after fun _ => ih.bind fun rest hRest => ?_
        exact yields_pure (Nat.succ_le_succ hRest)

theorem yields_readLookupTable : (readLookupTable ctx d room).Yields (·.length ≤ room) := by
  rw [readLookupTable]
  split
  · exact yields_pure (Nat.zero_le _)
  · exact yields_after fun _ => yields_readEntries

theorem capped_readEntries {table index : Nat} (le : room ≤ room') :
    Capped (CutTo room) (readEntries (ctx.withMaxImports cap) d table room index)
      (readEntries (ctx.withMaxImports cap') d table room' index) := by
  induction room generalizing room' index with
  | zero => exact (ends_pure fun _ _ _ _ => CutTo.nil).capped
  | succ room ih =>
      obtain ⟨room', rfl⟩ := Nat.exists_eq_add_of_le' (Nat.le_of_lt_succ (Nat.lt_succ_of_le
        (Nat.le_trans (Nat.succ_le_succ (Nat.zero_le room)) le)))
      refine capped_after fun _ => capped_after fun thunk => ?_
      split
      · exact capped_refl
      · refine capped_after fun entry => ?_
        refine (ih (Nat.le_of_succ_le_succ le)).bind yields_any (fun _ _ => capped_refl) ?_
        exact fun _ _ hCut => ends_pure (yields_pure hCut.cons)

theorem capped_readLookupTable (le : room ≤ room') :
    Capped (CutTo room) (readLookupTable (ctx.withMaxImports cap) d room)
      (readLookupTable (ctx.withMaxImports cap') d room') := by
  rw [readLookupTable, readLookupTable]
  split
  · exact capped_refl
  · exact capped_after fun _ => capped_readEntries le

/-- Descriptors that were ended by the room for entries, beside the same with more room. -/
structure CutAt (room : Nat) (ds ds' : List ImportDescriptor) : Prop where
  full : (ImportTable.mk ds).entries.length = room
  short : CutShort ds ds'

theorem CutAt.cons {ds ds' : List ImportDescriptor} (d : ImportDescriptor)
    (h : CutAt (room - d.entries.length) ds ds') (fits : d.entries.length ≤ room) :
    CutAt room (d :: ds) (d :: ds') := by
  refine ⟨?_, .later d h.short⟩
  have hFull := h.full
  simp only [ImportTable.entries, List.flatMap_cons, List.length_append] at hFull ⊢
  omega

/-- What follows a descriptor whose entries make up the given total. -/
def proceed (ctx : Context) (slots total : Nat) (d : ImportDescriptor) :
    ImageScan (List ImportDescriptor) := do
  let limit := ctx.options.maxImports.toNat
  if total ≥ limit then
    Scan.emit (.tooManyImports limit)
    return [d]
  else return d :: (← readDescriptors ctx slots total)

theorem yields_proceed {slots total : Nat} :
    (proceed ctx slots total d).Yields fun ds => ∃ rest, ds = d :: rest := by
  rw [proceed]
  split
  · exact yields_after fun _ => yields_pure ⟨[], rfl⟩
  · exact yields_after fun rest => yields_pure ⟨rest, rfl⟩

/-- A descriptor that uses up the room ends the first run, whatever the second one goes on with. -/
theorem ends_proceed {slots total : Nat} {act : ImageScan (List ImportDescriptor)}
    (full : total = cap.toNat)
    (short : act.Yields (CutAt room [d])) :
    Ends (CutAt room) (proceed (ctx.withMaxImports cap) slots total d) act := by
  have reached : total ≥ (ctx.withMaxImports cap).options.maxImports.toNat := Nat.le_of_eq full.symm
  rw [proceed]
  rw [if_pos reached]
  exact ends_emit short

theorem yields_readDescriptors {slots total : Nat}
    (hTotal : total ≤ ctx.options.maxImports.toNat) :
    (readDescriptors ctx slots total).Yields fun ds =>
      total + (ImportTable.mk ds).entries.length ≤ ctx.options.maxImports.toNat := by
  induction slots generalizing total with
  | zero => exact yields_fault
  | succ slots ih =>
      refine yields_after fun r => ?_
      dsimp only
      split
      · exact yields_pure hTotal
      · split
        · exact yields_after fun _ => ih hTotal
        · refine yields_after fun library => yields_readLookupTable.bind fun entries hEntries => ?_
          have hCap := ctx.options.maxImports.toNat_lt
          rw [sum_of_lt (by omega), pure_bind]
          split
          · refine yields_after fun _ => yields_pure ?_
            simp only [ImportTable.entries, List.flatMap_cons, List.flatMap_nil, List.append_nil]
            omega
          · refine (ih (by omega)).bind fun rest hRest => yields_pure ?_
            simp only [ImportTable.entries, List.flatMap_cons, List.length_append] at hRest ⊢
            omega

theorem CutAt.single {ds : List ImportDescriptor} {entries' : List ImportEntry}
    (h : CutTo room d.entries entries')
    (hds : ∃ rest, ds = { d with entries := entries' } :: rest) :
    CutAt room [d] ds := by
  obtain ⟨rest, rfl⟩ := hds
  refine ⟨?_, ?_⟩
  · rw [ImportTable.entries, List.flatMap_cons, List.flatMap_nil, List.append_nil, h.full]
  · have hShort := CutShort.last { d with entries := entries' } room rest
    rwa [← h.eq_take] at hShort

/-- A descriptor that both runs have, and the room that it leaves. -/
theorem capped_proceed {slots total : Nat} (le : cap.toNat ≤ cap'.toNat)
    (fits : total + d.entries.length ≤ cap.toNat)
    (rest : total + d.entries.length < cap.toNat →
      Capped (CutAt (cap.toNat - (total + d.entries.length)))
        (readDescriptors (ctx.withMaxImports cap) slots (total + d.entries.length))
        (readDescriptors (ctx.withMaxImports cap') slots (total + d.entries.length))) :
    Capped (CutAt (cap.toNat - total))
      (proceed (ctx.withMaxImports cap) slots (total + d.entries.length) d)
      (proceed (ctx.withMaxImports cap') slots (total + d.entries.length) d) := by
  by_cases full : total + d.entries.length = cap.toNat
  case pos =>
    have itself : CutTo (cap.toNat - total) d.entries d.entries :=
      ⟨by omega, List.prefix_rfl⟩
    exact (ends_proceed full fun s ds s' hRun =>
      CutAt.single itself (yields_proceed s ds s' hRun)).capped
  case neg =>
    have below : ¬ total + d.entries.length ≥ (ctx.withMaxImports cap).options.maxImports.toNat :=
      fun reached => full (Nat.le_antisymm fits reached)
    have below' :
        ¬ total + d.entries.length ≥ (ctx.withMaxImports cap').options.maxImports.toNat :=
      fun reached => below (Nat.le_trans le reached)
    rw [proceed, proceed]
    rw [if_neg below, if_neg below']
    refine (rest (Nat.lt_of_le_of_ne fits full)).bind yields_any (fun _ _ => capped_refl) ?_
    intro ds ds' hCut
    refine ends_pure (yields_pure (CutAt.cons d ?_ (by omega)))
    rwa [Nat.sub_sub]

theorem capped_readDescriptors (le : cap ≤ cap') {slots total : Nat}
    (hTotal : total ≤ cap.toNat) :
    Capped (CutAt (cap.toNat - total)) (readDescriptors (ctx.withMaxImports cap) slots total)
      (readDescriptors (ctx.withMaxImports cap') slots total) := by
  have hCap := cap.toNat_lt
  have hLe : cap.toNat ≤ cap'.toNat := le
  induction slots generalizing total with
  | zero => exact capped_refl
  | succ slots ih =>
      refine capped_after fun r => ?_
      dsimp only
      split
      · exact capped_refl
      · split
        · exact capped_after fun _ => ih hTotal
        · refine capped_after fun library => ?_
          refine (capped_readLookupTable (Nat.sub_le_sub_right hLe total)).bind
            yields_readLookupTable (fun entries hEntries => ?_) fun entries entries' hCut => ?_
          · have fits : total + entries.length ≤ cap.toNat := by omega
            rw [sum_of_lt (by omega), pure_bind, pure_bind]
            exact capped_proceed (d := { ImportDescriptor.ofRecord r with library, entries }) hLe
              fits fun below => ih (Nat.le_of_lt below)
          · have hFull := hCut.full
            rw [sum_of_lt (by omega), pure_bind]
            refine ends_proceed (by omega) (yields_after fun total' => ?_)
            exact fun s ds s' hRun => CutAt.single hCut (yields_proceed s ds s' hRun)

/-- A table of imports that was ended by the cap, beside the same with a larger one. -/
structure TableCut (cap : Nat) (t t' : ImportTable) : Prop where
  short : CutShort t.descriptors t'.descriptors
  entries : CutTo cap t.entries t'.entries

theorem yields_read : (read ctx).Yields (·.count ≤ ctx.options.maxImports.toNat) := by
  refine yields_after fun r => ?_
  refine (yields_readDescriptors (Nat.zero_le _)).bind fun ds hEntries => ?_
  rw [Nat.zero_add] at hEntries
  exact yields_after fun _ => yields_pure hEntries

theorem capped_read (le : cap ≤ cap') :
    Capped (TableCut cap.toNat) (read (ctx.withMaxImports cap))
      (read (ctx.withMaxImports cap')) := by
  refine capped_after fun r => ?_
  refine (capped_readDescriptors le (Nat.zero_le _)).bind yields_any (fun _ _ => capped_refl) ?_
  intro ds ds' hCut
  refine ends_emit (yields_after fun _ => yields_pure ⟨hCut.short, hCut.full, ?_⟩)
  exact hCut.short.entries_isPrefix

end Import
end PortableExecutable
