import PortableExecutable.Proofs.Resource.Costs
import PortableExecutable.Proofs.Resource.Descent

/-!
What a walk that ends by itself reports. Where a directory is entered, its leaves are reported, and
what it links to is entered sooner or later, unless that would be too deep. So a chain of links is
followed to its end as long as none of its directories was entered on the last level. It may have
been: a directory counts as opened from where it is met first, and if that is on the last level,
then what it links to is lost, also where a shorter way leads there.
-/

namespace PortableExecutable

open Layout

/-- What a resource says about its data, without the way to it. -/
def ResourceEntry.datum (e : ResourceEntry) : UInt32 × UInt32 × UInt32 :=
  (e.dataRva, e.size, e.codePage)

def Context.withMaxResourceDepth (ctx : Context) (cap : UInt64) : Context :=
  { ctx with options := { ctx.options with maxResourceDepth := cap } }

namespace Resource

section Statements

variable (content : ByteArray) (root : Nat)

/-- The links lead from the root through some directories to one more. -/
inductive Chain : List Nat → Nat → Prop
  | root : Chain [] 0
  | link {above : List Nat} {directory i child : Nat} : Chain above directory →
      Links content root directory i child → Chain (above ++ [directory]) child

/-- No chain of different directories takes so many links. -/
def Shallow (levels : Nat) : Prop :=
  ∀ above directory, Chain content root above directory → (above ++ [directory]).Nodup →
    above.length < levels

/-- The directory has a slot that leads to such data. -/
def HasDatum (directory : Nat) (datum : UInt32 × UInt32 × UInt32) : Prop :=
  ∃ i < slotCount content (root + directory), targetWord content (root + directory) i < 2 ^ 31 ∧
    (leafAt content [] (root + targetWord content (root + directory) i)).datum = datum

/-- Every leaf of the directory is reported, by whatever path. -/
def Reports (entries : List ResourceEntry) (directory : Nat) : Prop :=
  ∀ i < slotCount content (root + directory), targetWord content (root + directory) i < 2 ^ 31 →
    ∃ path, leafAt content path (root + targetWord content (root + directory) i) ∈ entries

/-- A slot of a directory at some depth has been gone through: its leaf is reported, or what it
links to is open if there is a level left for it. -/
structure Served (levels : Nat) (found : Flattened) (directory depth i : Nat) : Prop where
  leaf : targetWord content (root + directory) i < 2 ^ 31 →
    ∃ path, leafAt content path (root + targetWord content (root + directory) i) ∈ found.leaves
  links : ∀ child, Links content root directory i child → depth + 1 < levels →
    child ∈ found.opened

/-- A part of a walk ends only when there is no room left; otherwise it has gone through all slots
of the directories that it entered. -/
structure Covers (levels room : Nat) (visits : List Visit) (found : Flattened) : Prop where
  full : found.goesOn = false → room ≤ found.leaves.length
  served : found.goesOn = true → ∀ directory depth, .directory directory depth ∈ visits →
    ∀ i < slotCount content (root + directory), Served content root levels found directory depth i

/-- A whole walk that has not run out of room, seen from its end. -/
structure Complete (levels : Nat) (visits : List Visit) (entries : List ResourceEntry) : Prop where
  root_entered : 0 < levels → ∃ depth, .directory 0 depth ∈ visits
  reports : ∀ directory depth, .directory directory depth ∈ visits →
    Reports content root entries directory
  followed : ∀ directory depth i child, .directory directory depth ∈ visits →
    Links content root directory i child → depth + 1 < levels →
      ∃ depth', .directory child depth' ∈ visits
  chained : ∀ directory depth, .directory directory depth ∈ visits →
    depth < levels ∧ ∃ above, Chain content root above directory ∧
      (above ++ [directory]).Nodup ∧ above.length = depth ∧
        ∀ a ∈ above, ∃ depth', .directory a depth' ∈ visits

end Statements

section Parts

variable {content : ByteArray} {root levels room directory depth i : Nat} {opened : List Nat}
  {visits more : List Visit} {found found' : Flattened}

theorem covers_nil {leaves : List ResourceEntry} :
    Covers content root levels room [] ⟨opened, leaves, true⟩ :=
  ⟨nofun, fun _ => nofun⟩

theorem Covers.cons_slot (h : Covers content root levels room visits found) :
    Covers content root levels room (.slot directory i :: visits) found := by
  refine ⟨h.full, fun goesOn entered depth hMem => ?_⟩
  obtain impossible | hMem := List.mem_cons.mp hMem
  · cases impossible
  · exact h.served goesOn entered depth hMem

theorem Covers.cons_directory (h : Covers content root levels room visits found)
    (served : found.goesOn = true → ∀ i < slotCount content (root + directory),
      Served content root levels found directory depth i) :
    Covers content root levels room (.directory directory depth :: visits) found := by
  refine ⟨h.full, fun goesOn entered depth' hMem => ?_⟩
  obtain same | hMem := List.mem_cons.mp hMem
  · cases same
    exact served goesOn
  · exact h.served goesOn entered depth' hMem

theorem Served.mono (h : Served content root levels found directory depth i)
    (hLeaves : found.leaves ⊆ found'.leaves) (hOpened : found.opened ⊆ found'.opened) :
    Served content root levels found' directory depth i :=
  ⟨fun low => (h.leaf low).imp fun _ hMem => hLeaves hMem,
    fun child links spared => hOpened (h.links child links spared)⟩

theorem Covers.append (h : Covers content root levels room visits found)
    (h' : Covers content root levels (room - found.leaves.length) more found')
    (goesOn : found.goesOn = true) (kept : found.opened ⊆ found'.opened) :
    Covers content root levels room (visits ++ more)
      { found' with leaves := found.leaves ++ found'.leaves } := by
  refine ⟨fun ended => ?_, fun goesOn' entered depth hMem i hi => ?_⟩
  · have hFull := h'.full ended
    rw [List.length_append]
    omega
  · obtain hMem | hMem := List.mem_append.mp hMem
    · exact (h.served goesOn entered depth hMem i hi).mono (List.subset_append_left _ _) kept
    · exact (h'.served goesOn' entered depth hMem i hi).mono (List.subset_append_right _ _)
        (List.Subset.refl _)

end Parts

section Walk

variable {ctx : Context} {root levels room directory i : Nat} {path : List ResourceId}
  {opened : List Nat} {s : Session}

/-- Entering a subdirectory covers what it enters, and opens the subdirectory if there is a level
for it. -/
def CoversBelow (ctx : Context) (root levels : Nat) : Prop :=
  ∀ {s : Session} {path : List ResourceId} {offset : Nat} {opened : List Nat} {room : Nat},
    path.length + levels = ctx.options.maxResourceDepth.toNat →
      (tourFrom ctx root levels path offset opened room).Leads s
        (fun found s' visits => s'.reader.content = s.reader.content ∧
          Covers s.reader.content root ctx.options.maxResourceDepth.toNat room visits found ∧
          (0 < levels → offset ∈ found.opened))
        fun _ => True

theorem covers_tourTarget (covers : CoversBelow ctx root levels)
    (hLevels : path.length + 1 + levels = ctx.options.maxResourceDepth.toNat) {id : ResourceId} :
    (tourTarget ctx root (tourFrom ctx root levels) (path ++ [id])
        (slotAt s.reader.content (root + directory) i) opened room).Leads s
      (fun found s' visits => s'.reader.content = s.reader.content ∧
        Covers s.reader.content root ctx.options.maxResourceDepth.toNat room visits found ∧
        (found.goesOn = true → Served s.reader.content root
          ctx.options.maxResourceDepth.toNat found directory path.length i))
      fun _ => True := by
  simp only [tourTarget, isOffset_iff, offset_eq, toNat_target_slotAt]
  split
  case isTrue high =>
    refine (covers ?_).mono ?_ fun _ _ => trivial
    · rw [List.length_append, List.length_singleton, hLevels]
    · intro found s' visits hFound
      obtain ⟨hContent, hCovers, hChild⟩ := hFound
      refine ⟨hContent, hCovers, fun _ => ⟨fun low => ?_, fun child links spared => ?_⟩⟩
      · exact absurd high (Nat.not_le_of_lt low)
      · rw [← links.offset_eq]
        exact hChild (by omega)
  case isFalse low =>
    rw [Nat.mod_eq_of_lt (Nat.lt_of_not_le low)]
    refine Tour.leads_step (leads_readLeaf.mono ?_ fun _ _ _ => trivial)
    intro found s' hFound
    obtain ⟨on, ⟨full, rfl⟩ | ⟨-, rfl⟩⟩ := hFound
    · exact ⟨on.content_eq, ⟨fun _ => Nat.le_of_eq full, fun h => absurd h Bool.false_ne_true⟩,
        fun h => absurd h Bool.false_ne_true⟩
    · refine ⟨on.content_eq, covers_nil, fun _ => ⟨fun _ => ⟨_, List.mem_cons_self⟩, ?_⟩⟩
      exact fun child links _ => absurd links.high low

theorem covers_tourSlots (covers : CoversBelow ctx root levels) {index count : Nat}
    (hOpen : directory ∈ opened)
    (hCount : index + count = slotCount s.reader.content (root + directory))
    (hLevels : path.length + 1 + levels = ctx.options.maxResourceDepth.toNat) :
    (tourSlots ctx root (tourFrom ctx root levels) path directory index
        ((List.range' index count).map (slotAt s.reader.content (root + directory))) opened
        room).Leads s
      (fun found s' visits => s'.reader.content = s.reader.content ∧
        Covers s.reader.content root ctx.options.maxResourceDepth.toNat room visits found ∧
        (found.goesOn = true → ∀ i, index ≤ i → i < slotCount s.reader.content (root + directory) →
          Served s.reader.content root ctx.options.maxResourceDepth.toNat found directory
            path.length i))
      fun _ => True := by
  induction count generalizing s index opened room with
  | zero => exact Tour.leads_pure ⟨rfl, covers_nil, fun _ i hi hi' => by omega⟩
  | succ count ih =>
      rw [List.range'_succ, List.map_cons, tourSlots]
      refine Tour.leads_visit_bind (Tour.leads_step_bind leads_readId.anyStop ?_)
      intro name s₁ hName
      rw [← hName.1.content_eq] at hCount ⊢
      refine Tour.Leads.bind ((covers_tourTarget covers hLevels).and
        (opened_tourTarget (tracksOpen_tourFrom levels))) ?_
      intro first s₂ visits hFirst
      obtain ⟨⟨hContent, hCovers, hServed⟩, hOpened⟩ := hFirst
      rw [tourOn]
      split
      case isFalse ended =>
        refine Tour.leads_pure ⟨hContent, ?_, fun goesOn => absurd goesOn ended⟩
        rw [List.append_nil]
        exact hCovers.cons_slot
      case isTrue goesOn =>
        rw [← hContent] at hCount ⊢
        refine Tour.Leads.bind ((ih (hOpened.kept _ hOpen) (by omega)).and
          (opened_tourSlots (tracksOpen_tourFrom levels) (hOpened.kept _ hOpen))) ?_
        intro others s₃ more hOthers
        obtain ⟨⟨hContent', hCovers', hServed'⟩, hOpened'⟩ := hOthers
        rw [← hContent] at hCovers hServed
        refine Tour.leads_pure ⟨hContent', ?_, fun goesOn' i hi hi' => ?_⟩
        · rw [List.append_nil]
          exact (hCovers.append hCovers' goesOn hOpened'.kept).cons_slot
        · -- what the first slot has led to stays found and stays open
          obtain rfl | later := Nat.eq_or_lt_of_le hi
          · exact (hServed goesOn).mono (List.subset_append_left _ _) hOpened'.kept
          · exact (hServed' goesOn' i later hi').mono (List.subset_append_right _ _)
              fun _ h => h

theorem coversBelow (levels : Nat) : CoversBelow ctx root levels := by
  induction levels with
  | zero => exact fun _ => ⟨rfl, covers_nil, fun none => absurd none (Nat.lt_irrefl 0)⟩
  | succ levels ih =>
      intro s path offset opened room hLevels
      rw [tourFrom]
      split
      case isTrue repeated =>
        exact ⟨rfl, covers_nil, fun _ => List.contains_iff_mem.mp repeated⟩
      case isFalse =>
        refine Tour.leads_visit_bind (Tour.leads_step_bind leads_readSlots.anyStop ?_)
        intro slots s₁ hSlots
        obtain ⟨on, -, rfl⟩ := hSlots
        rw [← on.content_eq, List.range_eq_range']
        refine ((covers_tourSlots ih List.mem_cons_self (Nat.zero_add _) (by omega)).and
          (opened_tourSlots (tracksOpen_tourFrom levels) List.mem_cons_self)).mono ?_
            fun _ _ => trivial
        intro found s₂ visits hFound
        obtain ⟨⟨hContent, hCovers, hServed⟩, hOpened⟩ := hFound
        exact ⟨hContent, hCovers.cons_directory fun goesOn i hi => hServed goesOn i i.zero_le hi,
          fun _ => hOpened.kept _ List.mem_cons_self⟩

end Walk

section Chains

variable {content : ByteArray} {root levels directory : Nat} {above : List Nat}
  {visits : List Visit} {entries : List ResourceEntry}

theorem Descent.chain {ctx : Context} {r : Reader} {path : List ResourceId}
    (h : Descent ctx r root above path directory) : Chain r.content root above directory := by
  induction h with
  | root => exact .root
  | link _ _ links _ ih => exact ih.link links

theorem Reports.exists_mem {datum : UInt32 × UInt32 × UInt32}
    (h : Reports content root entries directory) (hDatum : HasDatum content root directory datum) :
    ∃ e ∈ entries, e.datum = datum := by
  obtain ⟨i, hi, low, rfl⟩ := hDatum
  obtain ⟨path, hMem⟩ := h i hi low
  exact ⟨_, hMem, rfl⟩

/-- A chain is followed to its end unless one of its directories was entered on the last level. -/
theorem Complete.entered_of_spared (h : Complete content root levels visits entries)
    (chain : Chain content root above directory) (short : above.length < levels)
    (spared : ∀ a ∈ above, .directory a (levels - 1) ∉ visits) :
    ∃ depth, .directory directory depth ∈ visits := by
  induction chain with
  | root => exact h.root_entered short
  | link _ links ih =>
      rw [List.length_append, List.length_singleton] at short
      obtain ⟨depth, entered⟩ := ih (by omega) fun a ha => spared a (List.mem_append_left _ ha)
      have hDepth := (h.chained _ _ entered).1
      have notLast : depth ≠ levels - 1 := by
        rintro rfl
        exact spared _ (List.mem_append_right _ (List.mem_singleton_self _)) entered
      exact h.followed _ _ _ _ entered links (by omega)

/-- A link from the last level leads back to the chain above it if no chain goes deeper. -/
theorem Complete.entered_of_shallow (h : Complete content root levels visits entries)
    (shallow : Shallow content root levels) (chain : Chain content root above directory) :
    ∃ depth, .directory directory depth ∈ visits := by
  induction chain with
  | root => exact h.root_entered (shallow [] 0 .root (List.nodup_singleton 0))
  | @link _ parent i child _ links ih =>
      obtain ⟨depth, entered⟩ := ih
      obtain ⟨hDepth, way, hWay, distinct, rfl, hAbove⟩ := h.chained _ _ entered
      by_cases back : child ∈ way ++ [parent]
      case pos =>
        obtain hMem | hMem := List.mem_append.mp back
        · exact hAbove child hMem
        · rw [List.mem_singleton.mp hMem]
          exact ⟨_, entered⟩
      case neg =>
        -- the way goes on to a directory that is not on it, so it is not the longest one
        have further := shallow _ _ (hWay.link links) (List.concat_eq_append ▸ distinct.concat back)
        rw [List.length_append, List.length_singleton] at further
        exact h.followed _ _ _ _ entered links further

end Chains

section Whole

variable {ctx : Context} {s s' : Session} {entries : List ResourceEntry}

theorem complete_of_read (hRead : read ctx s = .ok entries s')
    (roomy : entries.length < ctx.options.maxResourceEntries.toNat) :
    Complete s.reader.content s.reader.position ctx.options.maxResourceDepth.toNat
      ((tour ctx).visits s) entries := by
  rw [← scan_tour] at hRead
  obtain ⟨found, s₁, ⟨⟨⟨-, covers, hRoot⟩, ⟨on, leaves, traced⟩⟩, hOpened⟩, rfl, -⟩ := (leads_tour
    (((coversBelow _ (Nat.zero_add _)).and
      (traces_tourFrom _ .root List.nodup_nil nofun (Nat.zero_add _))).and
        (tracksOpen_tourFrom _ _ _ _ _ _))).of_ok hRead
  have goesOn : found.goesOn = true := by
    by_contra ended
    have full := covers.full (Bool.eq_false_of_not_eq_true ended)
    omega
  have served := covers.served goesOn
  have entered {o : Nat} (hMem : o ∈ found.opened) :
      ∃ depth, .directory o depth ∈ (tour ctx).visits s :=
    (hOpened.entered o hMem).resolve_left List.not_mem_nil
  refine ⟨fun some => entered (hRoot some), ?_, ?_, ?_⟩
  · exact fun directory depth hMem i hi low => (served directory depth hMem i hi).leaf low
  · intro directory depth i child hMem links spared
    exact entered ((served directory depth hMem i links.index_lt).links child links spared)
  · intro directory depth hMem
    obtain ⟨above, path, hEntered⟩ := traced.entered directory depth hMem
    refine ⟨hEntered.few, above, ?_, hEntered.distinct, hEntered.length_eq,
      fun a ha => entered (hEntered.above_opened a ha)⟩
    rw [← on.content_eq]
    exact hEntered.descent.chain

/-- Where the data comes from that is reported. -/
theorem exists_chain_of_mem (hRead : read ctx s = .ok entries s') {e : ResourceEntry}
    (he : e ∈ entries) :
    ∃ above directory, Chain s.reader.content s.reader.position above directory ∧
      above.length < ctx.options.maxResourceDepth.toNat ∧
        HasDatum s.reader.content s.reader.position directory e.datum := by
  obtain ⟨on, leaves, found, rfl, traced, -⟩ := exists_traced hRead
  rw [traced.leaves_eq] at he
  obtain ⟨leaf, hLeaf, rfl⟩ := List.mem_map.mp he
  obtain ⟨above, path, chain⟩ := traced.grounded leaf hLeaf
  rw [← on.content_eq]
  exact ⟨above, leaf.directory, chain.descent.chain, chain.few, leaf.index, chain.index_lt,
    chain.low, rfl⟩

end Whole

/-- A walk with room to spare reports all leaves of a directory that few enough links lead to,
unless on each such way it entered some directory on its last level; and all leaves of all
directories if no chain goes deeper. If a greater depth costs the data of a leaf, there is a chain
that goes deeper still, and the deeper walk entered some directory above the leaf on its own last
level. -/
theorem read_covers_entered (ctx : Context) (s s' : Session) (entries : List ResourceEntry)
    (hRead : read ctx s = .ok entries s')
    (roomy : entries.length < ctx.options.maxResourceEntries.toNat) :
    let content := s.reader.content
    let root := s.reader.position
    let levels := ctx.options.maxResourceDepth.toNat
    (∀ above directory, Chain content root above directory → above.length < levels →
      (∀ a ∈ above, .directory a (levels - 1) ∉ (tour ctx).visits s) →
        Reports content root entries directory) ∧
    (Shallow content root levels → ∀ above directory, Chain content root above directory →
      Reports content root entries directory) ∧
    ∀ cap, ctx.options.maxResourceDepth ≤ cap →
      let deeper := ctx.withMaxResourceDepth cap
      ∀ entries' s'', read deeper s = .ok entries' s'' →
        entries'.length < ctx.options.maxResourceEntries.toNat → ∀ e ∈ entries,
          (∃ e' ∈ entries', e'.datum = e.datum) ∨
          ¬ Shallow content root cap.toNat ∧ ∃ above directory, Chain content root above directory ∧
            above.length < levels ∧ HasDatum content root directory e.datum ∧
              ∃ a ∈ above, .directory a (cap.toNat - 1) ∈ (tour deeper).visits s := by
  intro content root levels
  have complete : Complete content root levels ((tour ctx).visits s) entries :=
    complete_of_read hRead roomy
  refine ⟨fun above directory chain short spared => ?_, fun shallow above directory chain => ?_, ?_⟩
  · obtain ⟨depth, entered⟩ := complete.entered_of_spared chain short spared
    exact complete.reports directory depth entered
  · obtain ⟨depth, entered⟩ := complete.entered_of_shallow shallow chain
    exact complete.reports directory depth entered
  · intro cap hCap deeper entries' s'' hRead' roomy' e he
    have hLevels : levels ≤ cap.toNat := UInt64.le_iff_toNat_le.mp hCap
    have complete' : Complete content root cap.toNat ((tour deeper).visits s) entries' :=
      complete_of_read hRead' roomy'
    obtain ⟨above, directory, chain, few, hDatum⟩ := exists_chain_of_mem hRead he
    have kept (entered : ∃ depth, .directory directory depth ∈ (tour deeper).visits s) :
        ∃ e' ∈ entries', e'.datum = e.datum := by
      obtain ⟨depth, entered⟩ := entered
      exact (complete'.reports directory depth entered).exists_mem hDatum
    by_cases shallow : Shallow content root cap.toNat
    case pos => exact .inl (kept (complete'.entered_of_shallow shallow chain))
    case neg =>
      by_cases spared : ∀ a ∈ above, .directory a (cap.toNat - 1) ∉ (tour deeper).visits s
      case pos =>
        exact .inl (kept (complete'.entered_of_spared chain (few.trans_le hLevels) spared))
      case neg =>
        push Not at spared
        exact .inr ⟨shallow, above, directory, chain, few, hDatum, spared⟩

section Shared

/-- The root has two slots. The first leads to the same directory as the second, by two directories
more; a directory below that one has the only leaf. -/
def shared : Session where
  reader :=
    { label := "memory"
      content := ⟨#[0, 0, 0, 0,
        0, 0, 0, 0, 0, 0, 0, 0, 0, 0, 0, 0, 0, 0, 2, 0,
        1, 0, 0, 0, 32, 0, 0, 0x80, 2, 0, 0, 0, 80, 0, 0, 0x80,
        0, 0, 0, 0, 0, 0, 0, 0, 0, 0, 0, 0, 0, 0, 1, 0, 3, 0, 0, 0, 56, 0, 0, 0x80,
        0, 0, 0, 0, 0, 0, 0, 0, 0, 0, 0, 0, 0, 0, 1, 0, 4, 0, 0, 0, 80, 0, 0, 0x80,
        0, 0, 0, 0, 0, 0, 0, 0, 0, 0, 0, 0, 0, 0, 1, 0, 5, 0, 0, 0, 104, 0, 0, 0x80,
        0, 0, 0, 0, 0, 0, 0, 0, 0, 0, 0, 0, 0, 0, 1, 0, 6, 0, 0, 0, 128, 0, 0, 0,
        0, 16, 0, 0, 7, 0, 0, 0, 0, 0, 0, 0, 0, 0, 0, 0]⟩
      limits := {}
      position := 4 }

def atDepth (cap : UInt64) : Context := ⟨{}, { maxResourceDepth := cap }⟩

theorem chain_shared : Chain shared.reader.content 4 [0, 80] 104 := by
  have second : Links shared.reader.content 4 0 1 80 :=
    ⟨by decide +kernel, by decide +kernel, by decide +kernel⟩
  have down : Links shared.reader.content 4 80 0 104 :=
    ⟨by decide +kernel, by decide +kernel, by decide +kernel⟩
  exact (Chain.root.link second).link down

theorem read_covers_entered_shared :
    ∃ entries s', read (atDepth 3) shared = .ok entries s' ∧ entries.length < 10000 ∧
      Reports shared.reader.content 4 entries 104 := by
  have hRead : (read (atDepth 3)).delivered? shared =
      some [⟨[.id 2, .id 5, .id 6], 4096, 7, 0⟩] := by decide +kernel
  obtain ⟨s', hRead⟩ := Scan.delivered?_eq_some_iff.mp hRead
  refine ⟨_, s', hRead, by decide, ?_⟩
  exact (read_covers_entered _ _ _ _ hRead (by decide)).1 [0, 80] 104 chain_shared (by decide)
    (by decide +kernel)

/-- With one level more the walk enters directory 80 on its last level, by the longer way. What the
file has below it is lost, although the shorter way is still there. -/
theorem greater_depth_hides_leaf :
    (read (atDepth 4)).Unrefused shared ∧
      (read (atDepth 4)).delivered? shared = some [] ∧
      Chain shared.reader.content 4 [0, 80] 104 ∧ [0, 80].length < (4 : UInt64).toNat ∧
      ¬ Reports shared.reader.content 4 [] 104 ∧
      (read (atDepth 3)).delivered? shared =
        some [⟨[.id 2, .id 5, .id 6], 4096, 7, 0⟩] := by
  have hRead : (read (atDepth 4)).delivered? shared = some [] := by decide +kernel
  have unrefused : (read (atDepth 4)).Unrefused shared :=
    costs_read.unrefused (by decide +kernel) (by decide) costs_read
  refine ⟨unrefused, hRead, chain_shared, by decide, ?_,
    by decide +kernel⟩
  intro reports
  obtain ⟨path, impossible⟩ := reports 0 (by decide +kernel) (by decide +kernel)
  cases impossible

end Shared
end Resource
end PortableExecutable
