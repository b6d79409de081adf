import PortableExecutable.Proofs.Resource.Reads
import PortableExecutable.Proofs.Resource.Visits

/-!
Where the leaves that are reported come from. Every one of them is a slot at the end of a chain of
links in the file, from the root on and without a directory that comes twice; its path is what the
slots along the chain are called. A slot is called by its number or by its name, and by the offset
of its name only where the file has no such name or the budget does not cover it. No shape of the
graph and no bound is assumed, nor that the reader is sound.
-/

namespace PortableExecutable

open Layout

namespace Resource

section Chains

variable (ctx : Context) (r : Reader) (root : Nat)

/-- The links lead from the root through some directories to one more. The path is what the slots
that are followed are called. -/
inductive Descent : List Nat → List ResourceId → Nat → Prop
  | root : Descent [] [] 0
  | link {above : List Nat} {path : List ResourceId} {directory i child : Nat}
      {id : ResourceId} :
      Descent above path directory → SlotsInside r.content (root + directory) →
        Links r.content root directory i child → Called ctx r root directory i id →
          Descent (above ++ [directory]) (path ++ [id]) child

/-- A slot at the end of a chain of different directories, not too many, that leads to the data of
a leaf. -/
structure EndsChain (above : List Nat) (path : List ResourceId) (leaf : Leaf) : Prop where
  descent : Descent ctx r root above path leaf.directory
  distinct : (above ++ [leaf.directory]).Nodup
  few : above.length < ctx.options.maxResourceDepth.toNat
  slots : SlotsInside r.content (root + leaf.directory)
  index_lt : leaf.index < slotCount r.content (root + leaf.directory)
  low : targetWord r.content (root + leaf.directory) leaf.index < 2 ^ 31
  data : root + targetWord r.content (root + leaf.directory) leaf.index + 16 ≤ r.content.size
  path_eq : ∃ id, Called ctx r root leaf.directory leaf.index id ∧ leaf.path = path ++ [id]

def Grounded (leaf : Leaf) : Prop := ∃ above path, EndsChain ctx r root above path leaf

/-- A directory at so many links from the root, where it was entered through open directories. -/
structure Entered (opened : List Nat) (directory depth : Nat) (above : List Nat)
    (path : List ResourceId) : Prop where
  descent : Descent ctx r root above path directory
  distinct : (above ++ [directory]).Nodup
  length_eq : above.length = depth
  few : depth < ctx.options.maxResourceDepth.toNat
  above_opened : ∀ a ∈ above, a ∈ opened

end Chains

/-- The note that the slot of a leaf was followed. -/
def Leaf.visit (leaf : Leaf) : Visit := .slot leaf.directory leaf.index

/-- The leaves that were found are those of slots that were followed, in this order, and they and
the directories that were entered end chains in the file. -/
structure Traced (ctx : Context) (r : Reader) (root : Nat) (leaves : List Leaf)
    (visits : List Visit) (found : Flattened) : Prop where
  leaves_eq : found.leaves = leaves.map (entryOf r.content root)
  followed : (leaves.map Leaf.visit).Sublist visits
  grounded : ∀ leaf ∈ leaves, Grounded ctx r root leaf
  entered : ∀ directory depth, .directory directory depth ∈ visits →
    ∃ above path, Entered ctx r root found.opened directory depth above path

section Later

variable {ctx : Context} {r r' : Reader} {root offset directory i depth : Nat} {id : ResourceId}
  {above opened opened' : List Nat} {path : List ResourceId} {leaf : Leaf}

theorem Descent.later (h : Descent ctx r root above path directory) (on : r.ReadsOn r') :
    Descent ctx r' root above path directory := by
  induction h with
  | root => exact .root
  | link _ slots links called ih =>
      rw [← on.content_eq] at slots links
      exact ih.link slots links (called.later on)

theorem Grounded.later (h : Grounded ctx r root leaf) (on : r.ReadsOn r') :
    Grounded ctx r' root leaf := by
  obtain ⟨above, path, chain⟩ := h
  obtain ⟨id, called, hPath⟩ := chain.path_eq
  have hContent := on.content_eq
  refine ⟨above, path, chain.descent.later on, chain.distinct, chain.few, ?_, ?_, ?_, ?_,
    id, called.later on, hPath⟩
  · rw [hContent]; exact chain.slots
  · rw [hContent]; exact chain.index_lt
  · rw [hContent]; exact chain.low
  · rw [hContent]; exact chain.data

theorem Entered.later (h : Entered ctx r root opened directory depth above path)
    (on : r.ReadsOn r') (kept : ∀ o ∈ opened, o ∈ opened') :
    Entered ctx r' root opened' directory depth above path :=
  ⟨h.descent.later on, h.distinct, h.length_eq, h.few, fun a ha => kept a (h.above_opened a ha)⟩

theorem Descent.length_eq (h : Descent ctx r root above path directory) :
    path.length = above.length := by
  induction h with
  | root => rfl
  | link _ _ _ _ ih =>
      rw [List.length_append, List.length_append, ih, List.length_singleton,
        List.length_singleton]

end Later

section Tracing

variable {ctx : Context} {r r' : Reader} {root directory i depth levels room : Nat}
  {above : List Nat} {path : List ResourceId} {opened : List Nat} {s : Session} {id : ResourceId}
  {leaves leaves' : List Leaf} {visits more : List Visit} {found found' : Flattened}

theorem traced_nil {goesOn : Bool} : Traced ctx r root [] [] ⟨opened, [], goesOn⟩ :=
  ⟨rfl, .refl _, nofun, nofun⟩

theorem Traced.cons_slot (h : Traced ctx r root leaves visits found) :
    Traced ctx r root leaves (.slot directory i :: visits) found := by
  refine ⟨h.leaves_eq, h.followed.cons _, h.grounded, fun entered depth hMem => ?_⟩
  obtain impossible | hMem := List.mem_cons.mp hMem
  · cases impossible
  · exact h.entered entered depth hMem

theorem Traced.cons_directory (h : Traced ctx r root leaves visits found)
    (entered : Entered ctx r root found.opened directory depth above path) :
    Traced ctx r root leaves (.directory directory depth :: visits) found := by
  refine ⟨h.leaves_eq, h.followed.cons _, h.grounded, fun other depth' hMem => ?_⟩
  obtain same | hMem := List.mem_cons.mp hMem
  · cases same
    exact ⟨above, path, entered⟩
  · exact h.entered other depth' hMem

theorem Traced.append {goesOn : Bool} (h : Traced ctx r root leaves visits found)
    (h' : Traced ctx r' root leaves' more found') (on : r.ReadsOn r')
    (kept : ∀ o ∈ found.opened, o ∈ found'.opened) :
    Traced ctx r' root (leaves ++ leaves') (visits ++ more)
      ⟨found'.opened, found.leaves ++ found'.leaves, goesOn⟩ := by
  refine ⟨?_, ?_, fun leaf hLeaf => ?_, fun directory depth hMem => ?_⟩
  · rw [h.leaves_eq, h'.leaves_eq, List.map_append, on.content_eq]
  · rw [List.map_append]
    exact h.followed.append h'.followed
  · obtain hLeaf | hLeaf := List.mem_append.mp hLeaf
    · exact (h.grounded leaf hLeaf).later on
    · exact h'.grounded leaf hLeaf
  · obtain hMem | hMem := List.mem_append.mp hMem
    · obtain ⟨above, path, entered⟩ := h.entered directory depth hMem
      exact ⟨above, path, entered.later on kept⟩
    · exact h'.entered directory depth hMem

/-- Entering a subdirectory at the end of a chain of open directories traces all that is found. -/
def Traces (ctx : Context) (root levels : Nat) : Prop :=
  ∀ {s : Session} {above : List Nat} {path : List ResourceId} {offset : Nat} {opened : List Nat}
    {room : Nat}, Descent ctx s.reader root above path offset → above.Nodup →
    (∀ a ∈ above, a ∈ opened) → above.length + levels = ctx.options.maxResourceDepth.toNat →
      (tourFrom ctx root levels path offset opened room).Leads s
        (fun found s' visits => s.reader.ReadsOn s'.reader ∧
          ∃ leaves, Traced ctx s'.reader root leaves visits found)
        fun _ => True

theorem traces_tourTarget (traces : Traces ctx root levels)
    (entered : Entered ctx s.reader root opened directory depth above path)
    (hOpen : directory ∈ opened) (slots : SlotsInside s.reader.content (root + directory))
    (hi : i < slotCount s.reader.content (root + directory))
    (called : Called ctx s.reader root directory i id)
    (hLevels : depth + 1 + levels = ctx.options.maxResourceDepth.toNat) :
    (tourTarget ctx root (tourFrom ctx root levels) (path ++ [id])
        (slotAt s.reader.content (root + directory) i) opened room).Leads s
      (fun found s' visits => s.reader.ReadsOn s'.reader ∧
        ∃ leaves, Traced ctx s'.reader root leaves (.slot directory i :: visits) found)
      fun _ => True := by
  simp only [tourTarget, isOffset_iff, offset_eq, toNat_target_slotAt]
  split
  case isTrue high =>
    have way := entered.descent.link slots (links_of_le hi high) called
    refine (traces way entered.distinct ?_ ?_).mono ?_ fun _ _ => trivial
    · intro a ha
      obtain ha | ha := List.mem_append.mp ha
      · exact entered.above_opened a ha
      · rwa [List.mem_singleton.mp ha]
    · rw [List.length_append, List.length_singleton, entered.length_eq, hLevels]
    · intro found s' visits hFound
      obtain ⟨on, leaves, traced⟩ := hFound
      exact ⟨on, leaves, traced.cons_slot⟩
  case isFalse low =>
    have hLow := Nat.lt_of_not_le low
    rw [Nat.mod_eq_of_lt hLow]
    refine Tour.leads_step (leads_readLeaf.mono ?_ fun _ _ _ => trivial)
    intro found s' hFound
    obtain ⟨on, ⟨-, rfl⟩ | ⟨hData, rfl⟩⟩ := hFound
    · exact ⟨on, [], rfl, List.nil_sublist _, fun _ hMem => absurd hMem List.not_mem_nil, by simp⟩
    · have grounded : Grounded ctx s.reader root ⟨directory, i, path ++ [id]⟩ :=
        ⟨above, path, entered.descent, entered.distinct, entered.length_eq ▸ entered.few, slots, hi,
          hLow, hData, id, called, rfl⟩
      refine ⟨on, [⟨directory, i, path ++ [id]⟩], ?_, .refl _, ?_, by simp⟩
      · rw [List.map_singleton, entryOf, on.content_eq]
      · intro leaf hMem
        rw [List.mem_singleton.mp hMem]
        exact grounded.later on

theorem traces_tourSlots (traces : Traces ctx root levels) {index count : Nat}
    (entered : Entered ctx s.reader root opened directory depth above path)
    (hOpen : directory ∈ opened) (slots : SlotsInside s.reader.content (root + directory))
    (hCount : index + count = slotCount s.reader.content (root + directory))
    (hLevels : depth + 1 + levels = ctx.options.maxResourceDepth.toNat) :
    (tourSlots ctx root (tourFrom ctx root levels) path directory index
        ((List.range' index count).map (slotAt s.reader.content (root + directory))) opened
        room).Leads s
      (fun found s' visits => s.reader.ReadsOn s'.reader ∧
        ∃ leaves, Traced ctx s'.reader root leaves visits found)
      fun _ => True := by
  induction count generalizing s index opened room with
  | zero => exact Tour.leads_pure ⟨.refl _, [], traced_nil⟩
  | succ count ih =>
      rw [List.range'_succ, List.map_cons, tourSlots]
      refine Tour.leads_visit_bind (Tour.leads_step_bind leads_readId.anyStop ?_)
      intro name s₁ hName
      obtain ⟨on₁, called⟩ := hName
      rw [← on₁.content_eq] at slots hCount ⊢
      have entered₁ := entered.later on₁ fun _ => id
      refine Tour.Leads.bind ((traces_tourTarget traces entered₁ hOpen slots (by omega) called
        hLevels).and (opened_tourTarget (tracksOpen_tourFrom levels))) ?_
      intro first s₂ visits hFirst
      obtain ⟨⟨on₂, leaves, traced⟩, hOpened⟩ := hFirst
      rw [tourOn]
      split
      case isFalse =>
        refine Tour.leads_pure ⟨on₁.trans on₂, leaves, ?_⟩
        rwa [List.append_nil]
      case isTrue =>
        rw [← on₂.content_eq] at slots hCount ⊢
        have hOpen' := hOpened.kept _ hOpen
        refine Tour.Leads.bind ((ih (entered₁.later on₂ hOpened.kept) hOpen' slots (by omega)).and
          (opened_tourSlots (tracksOpen_tourFrom levels) hOpen')) ?_
        intro others s₃ more hOthers
        obtain ⟨⟨on₃, leaves', traced'⟩, hOpened'⟩ := hOthers
        refine Tour.leads_pure ⟨on₁.trans (on₂.trans on₃), leaves ++ leaves', ?_⟩
        rw [List.append_nil]
        exact traced.append traced' on₃ hOpened'.kept

theorem traces_tourFrom (levels : Nat) : Traces ctx root levels := by
  induction levels with
  | zero =>
      intro s above path offset opened room _ _ _ _
      exact ⟨.refl _, [], traced_nil⟩
  | succ levels ih =>
      intro s above path offset opened room way distinct hAbove hLevels
      rw [tourFrom]
      split
      case isTrue => exact ⟨.refl _, [], traced_nil⟩
      case isFalse unopened =>
        have new : offset ∉ opened := fun hMem => unopened (List.contains_iff_mem.mpr hMem)
        have distinct' : (above ++ [offset]).Nodup := by
          rw [List.nodup_append]
          refine ⟨distinct, List.nodup_singleton _, fun a ha b hb same => ?_⟩
          rw [same, List.mem_singleton.mp hb] at ha
          exact new (hAbove _ ha)
        have entered : Entered ctx s.reader root (offset :: opened) offset path.length above path :=
          ⟨way, distinct', way.length_eq.symm, by rw [way.length_eq]; omega,
            fun a ha => List.mem_cons_of_mem _ (hAbove a ha)⟩
        refine Tour.leads_visit_bind (Tour.leads_step_bind leads_readSlots.anyStop ?_)
        intro slots s₁ hSlots
        obtain ⟨on₁, inside, rfl⟩ := hSlots
        rw [← on₁.content_eq] at inside ⊢
        rw [List.range_eq_range']
        have entered₁ := entered.later on₁ fun _ => id
        refine ((traces_tourSlots ih entered₁ List.mem_cons_self inside (Nat.zero_add _)
          (by rw [way.length_eq]; omega)).and
            (opened_tourSlots (tracksOpen_tourFrom levels) List.mem_cons_self)).mono ?_
              fun _ _ => trivial
        intro found s₂ visits hFound
        obtain ⟨⟨on₂, leaves, traced⟩, hOpened⟩ := hFound
        exact ⟨on₁.trans on₂, leaves, traced.cons_directory (entered₁.later on₂ hOpened.kept)⟩

end Tracing

section Whole

variable {ctx : Context} {s s' : Session} {entries : List ResourceEntry}

theorem once_tour : Once 0 (fun _ => False) [] ((tour ctx).visits s) := by
  exact (leads_tour (notesOnce_tourFrom _ _ _ _ _ _ (by decide) 0)).visits
    fun _ _ _ ⟨_, _, once, _⟩ => once

theorem exists_traced (hRead : read ctx s = .ok entries s') :
    s.reader.ReadsOn s'.reader ∧ ∃ leaves found, entries = found.leaves ∧
      Traced ctx s'.reader s.reader.position leaves ((tour ctx).visits s) found ∧
        Opened [] ((tour ctx).visits s) found := by
  rw [← scan_tour] at hRead
  obtain ⟨found, s₁, ⟨⟨on, leaves, hTraced⟩, hOpened⟩, hEntries, hReader⟩ := (leads_tour
    ((traces_tourFrom _ .root List.nodup_nil nofun (Nat.zero_add _)).and
      (tracksOpen_tourFrom _ _ _ _ _ _))).of_ok hRead
  rw [hReader]
  exact ⟨on, leaves, found, hEntries, hTraced, hOpened⟩

end Whole

/-- However the directories are linked and whatever the bounds are, a walk notes nothing twice, and
so it has an end that does not depend on them; and all that it reports ends a chain in the file. -/
theorem read_traces_chains (ctx : Context) (s : Session) :
    let visits := (tour ctx).visits s
    (tour ctx).scan = read ctx ∧
      (visits.map Visit.subject).Nodup ∧ visits.length ≤ 2 ^ 31 * (2 * 65535 + 1) ∧
      ∀ entries s', read ctx s = .ok entries s' →
        s'.reader.content = s.reader.content ∧
        ∃ leaves : List Leaf,
          entries = leaves.map (entryOf s.reader.content s.reader.position) ∧
          (leaves.map fun leaf => (leaf.directory, leaf.index)).Nodup ∧
          ∀ leaf ∈ leaves, leaf.visit ∈ visits ∧
            Grounded ctx s'.reader s.reader.position leaf := by
  intro visits
  have once : Once 0 (fun _ => False) [] visits := once_tour
  refine ⟨scan_tour, once.distinct, Visit.length_le once.distinct once.bounded, ?_⟩
  intro entries s' hRead
  obtain ⟨on, leaves, found, hEntries, traced, -⟩ := exists_traced hRead
  refine ⟨on.content_eq, leaves, ?_, ?_, fun leaf hLeaf => ⟨?_, traced.grounded leaf hLeaf⟩⟩
  · rw [hEntries, traced.leaves_eq, on.content_eq]
  · have distinct := (traced.followed.map Visit.subject).nodup once.distinct
    rw [List.map_map] at distinct
    exact List.Nodup.of_map (fun slot : Nat × Nat => (slot.1, some slot.2))
      (by rwa [List.map_map])
  · exact traced.followed.subset (List.mem_map_of_mem hLeaf)

/-- A directory that links to itself and twice to another one, which links back to it and to
itself. Both have a leaf, and it is the same data. -/
def cyclic : Session where
  reader :=
    { label := "memory"
      content := ⟨#[0, 0, 0, 0,
        0, 0, 0, 0, 0, 0, 0, 0, 0, 0, 0, 0, 0, 0, 4, 0,
        1, 0, 0, 0, 48, 0, 0, 0x80, 2, 0, 0, 0, 0, 0, 0, 0x80,
        3, 0, 0, 0, 48, 0, 0, 0x80, 4, 0, 0, 0, 88, 0, 0, 0,
        0, 0, 0, 0, 0, 0, 0, 0, 0, 0, 0, 0, 1, 0, 2, 0,
        104, 0, 0, 0x80, 88, 0, 0, 0, 5, 0, 0, 0, 0, 0, 0, 0x80, 6, 0, 0, 0, 48, 0, 0, 0x80,
        0, 16, 0, 0, 7, 0, 0, 0, 0, 0, 0, 0, 0, 0, 0, 0,
        1, 0, 65, 0]⟩
      limits := {}
      position := 4 }

theorem read_traces_chains_cyclic :
    let ctx : Context :=
      ⟨{}, { maxResourceDepth := 0xFFFFFFFFFFFFFFFF, maxResourceEntries := 0xFFFFFFFFFFFFFFFF }⟩
    let entries : List ResourceEntry := [⟨[.id 1, .name "A"], 4096, 7, 0⟩, ⟨[.id 4], 4096, 7, 0⟩]
    (tour ctx).visits cyclic =
        [.directory 0 0, .slot 0 0, .directory 48 1, .slot 48 0, .slot 48 1, .slot 48 2, .slot 0 1,
          .slot 0 2, .slot 0 3] ∧
      ∃ s', read ctx cyclic = .ok entries s' ∧ ∃ leaves : List Leaf,
        entries = leaves.map (entryOf cyclic.reader.content 4) ∧
          (leaves.map fun leaf => (leaf.directory, leaf.index)).Nodup ∧
          ∀ leaf ∈ leaves, Grounded ctx s'.reader 4 leaf := by
  intro ctx entries
  have hRead : (read ctx).delivered? cyclic = some entries := by decide +kernel
  obtain ⟨s', hRead⟩ := Scan.delivered?_eq_some_iff.mp hRead
  obtain ⟨-, -, -, chains⟩ := read_traces_chains ctx cyclic
  obtain ⟨-, leaves, hEntries, distinct, grounded⟩ := chains entries s' hRead
  exact ⟨by decide +kernel, s', hRead, leaves, hEntries, distinct,
    fun leaf hLeaf => (grounded leaf hLeaf).2⟩

end Resource
end PortableExecutable
