import PortableExecutable.Proofs.Resource
import PortableExecutable.Proofs.Resource.Costs
import PortableExecutable.Proofs.Resource.Reads
import PortableExecutable.Proofs.Safety.Resource

/-!
Reading a tree of resources flattens it depth first. What is opened on the way into a slot is below
that slot, so in a tree the directories that are still to come are never taken for repeated ones;
the levels and the room for leaves suffice all the way down.
-/

namespace PortableExecutable
namespace Resource

open Coupling Layout

variable {ctx : Context} {content : ByteArray} {limits : Limits}
  {position root levels directory i room : Nat} {path : List ResourceId} {opened : List Nat}
  {s : Session}

theorem judges_readId (h : s.Reads content limits position) (covers : limits.CoversAll)
    (intact : Intact ctx content root) (hd : Reached content root ctx path directory)
    (hi : i < slotCount content (root + directory)) :
    Scan.Judges limits (readId ctx root (slotAt content (root + directory) i)) s True
      (fun _ => True) fun id s' =>
        id = idAt content root ctx directory i ∧ s'.Reads content limits position := by
  rw [← h.content_eq]
  refine (h.judges_of_leads covers trivial leads_readId).mono fun id s' _ hId => ?_
  obtain ⟨called, h'⟩ := hId
  have hContent := h'.content_eq
  rw [h.content_eq, ← hContent]
  refine ⟨called.eq_idAt ?_ (h'.affords covers), hContent ▸ h'⟩
  rw [hContent]
  exact intact.names hd hi

theorem judges_readSlots (h : s.Reads content limits position) (covers : limits.CoversAll)
    (inside : SlotsInside content (root + directory)) :
    Scan.Judges limits (readSlots root directory) s True (fun _ => True) fun slots s' =>
      slots = (List.range (slotCount content (root + directory))).map
          (slotAt content (root + directory)) ∧
        s'.Reads content limits position := by
  rw [← h.content_eq] at inside ⊢
  refine (h.judges_of_leads covers inside leads_readSlots).mono fun slots s' _ hSlots => ?_
  exact ⟨hSlots.1.2, h.content_eq ▸ hSlots.2⟩

/-- What was found are the given leaves, and the directories opened for them are below. -/
structure Walked (content : ByteArray) (root : Nat) (opened : List Nat) (leaves : List Leaf)
    (below : Nat → Prop) (found : Flattened) : Prop where
  goesOn : found.goesOn = true
  leaves_eq : found.leaves = leaves.map (entryOf content root)
  opened_below : ∀ o ∈ found.opened, o ∈ opened ∨ below o

/-- Opening a directory finds its leaves, if it and those below it have not been opened yet and
there is room. -/
def Opens (ctx : Context) (content : ByteArray) (limits : Limits) (position root levels : Nat)
    (path : List ResourceId) (directory : Nat) : Prop :=
  ∀ {s : Session} {opened : List Nat} {room : Nat}, s.Reads content limits position →
    (∀ o, Below content root directory o → o ∉ opened) →
      (depthFirst ctx content root levels path directory).length ≤ room →
        Scan.Judges limits (flatten ctx root levels path directory opened room) s True
          (fun _ => True) fun found s' =>
            Walked content root opened (depthFirst ctx content root levels path directory)
                (Below content root directory) found ∧
              s'.Reads content limits position

theorem judges_readLeaf (h : s.Reads content limits position) (covers : limits.CoversAll)
    (inside : root + targetWord content (root + directory) i + 16 ≤ content.size)
    (hRoom : 1 ≤ room) :
    Scan.Judges limits
      (readLeaf ctx root path (targetWord content (root + directory) i) opened room) s True
      (fun _ => True) fun found s' =>
        Walked content root opened [⟨directory, i, path⟩] (BelowSlot content root directory i)
            found ∧
          s'.Reads content limits position := by
  rw [← h.content_eq] at inside ⊢
  refine (h.judges_of_leads covers inside leads_readLeaf).mono fun found s' _ hFound => ?_
  refine ⟨?_, h.content_eq ▸ hFound.2⟩
  obtain ⟨full, -⟩ | ⟨-, rfl⟩ := hFound.1
  · omega
  · exact ⟨rfl, rfl, fun _ => .inl⟩

/-- Following one slot finds the leaves behind it. -/
theorem judges_readTarget (h : s.Reads content limits position) (covers : limits.CoversAll)
    (intact : Intact ctx content root)
    (hd : Reached content root ctx path directory) (hi : i < slotCount content (root + directory))
    (opens : ∀ {child}, Links content root directory i child →
      Opens ctx content limits position root levels
        (path ++ [idAt content root ctx directory i]) child)
    (unopened : ∀ o, BelowSlot content root directory i o → o ∉ opened)
    (few : (leavesBehind ctx content root levels path directory i).length ≤ room) :
    Scan.Judges limits (readTarget ctx root (flatten ctx root levels)
        (path ++ [idAt content root ctx directory i])
        (slotAt content (root + directory) i) opened room) s True (fun _ => True)
      fun found s' =>
        Walked content root opened (leavesBehind ctx content root levels path directory i)
            (BelowSlot content root directory i) found ∧
          s'.Reads content limits position := by
  simp only [readTarget, isOffset_iff, offset_eq, toNat_target_slotAt]
  obtain high | low := (Nat.lt_or_ge (targetWord content (root + directory) i) (2 ^ 31)).symm
  · have links := links_of_le hi high
    rw [leavesBehind_of_le high] at few ⊢
    rw [if_pos high]
    refine (opens links h (fun o below => unopened o ⟨_, links, below⟩) few).mono ?_
    intro found s' _ hFound
    obtain ⟨walked, h'⟩ := hFound
    refine ⟨⟨walked.goesOn, walked.leaves_eq, fun o hMem => ?_⟩, h'⟩
    exact (walked.opened_below o hMem).imp_right fun below => ⟨_, links, below⟩
  · rw [leavesBehind_of_lt low] at few ⊢
    rw [if_neg (Nat.not_le_of_lt low), Nat.mod_eq_of_lt low]
    exact judges_readLeaf h covers (intact.leaves hd hi low) few

/-- The slots of a directory from some of them on. What is found behind the first is not below any
of the others. -/
theorem judges_flattenSlots {indices : List Nat} (h : s.Reads content limits position)
    (covers : limits.CoversAll) (tree : IsTree ctx content root) (intact : Intact ctx content root)
    (hd : Reached content root ctx path directory)
    (hIndices : ∀ i ∈ indices, i < slotCount content (root + directory)) (distinct : indices.Nodup)
    (opens : ∀ {i child}, Links content root directory i child →
      Opens ctx content limits position root levels
        (path ++ [idAt content root ctx directory i]) child)
    (unopened : ∀ i ∈ indices, ∀ o, BelowSlot content root directory i o → o ∉ opened)
    (few : (indices.flatMap (leavesBehind ctx content root levels path directory)).length ≤
      room) :
    Scan.Judges limits (flattenSlots ctx root (flatten ctx root levels) path
        (indices.map (slotAt content (root + directory))) opened room) s True (fun _ => True)
      fun found s' =>
        Walked content root opened
            (indices.flatMap (leavesBehind ctx content root levels path directory))
            (fun o => ∃ i ∈ indices, BelowSlot content root directory i o) found ∧
          s'.Reads content limits position := by
  induction indices generalizing s opened room with
  | nil => exact Scan.judges_pure trivial ⟨⟨rfl, rfl, fun _ => .inl⟩, h⟩
  | cons i rest ih =>
      obtain ⟨hi, hRest⟩ := List.forall_mem_cons.mp hIndices
      obtain ⟨fresh, distinct'⟩ := List.nodup_cons.mp distinct
      obtain ⟨unopenedHere, unopenedLater⟩ := List.forall_mem_cons.mp unopened
      rw [List.flatMap_cons, List.length_append] at few
      rw [List.map_cons, flattenSlots_cons]
      refine (judges_readId h covers intact hd hi).bind (fun _ => trivial) ?_
      intro id s₁ _ hId
      obtain ⟨rfl, h₁⟩ := hId
      refine (judges_readTarget h₁ covers intact hd hi opens unopenedHere (by omega)).bind
        (fun _ => trivial) ?_
      intro first s₂ _ hFirst
      obtain ⟨walked, h₂⟩ := hFirst
      have hLength : first.leaves.length =
          (leavesBehind ctx content root levels path directory i).length := by
        rw [walked.leaves_eq, List.length_map]
      have unopened' : ∀ j ∈ rest, ∀ o, BelowSlot content root directory j o →
          o ∉ first.opened := by
        intro j hj o below hMem
        obtain before | below' := walked.opened_below o hMem
        · exact unopenedLater j hj o below before
        · exact fresh (tree.slot_eq hd below below' ▸ hj)
      rw [proceed, if_pos walked.goesOn]
      refine (ih h₂ hRest distinct' unopened' (by omega)).bind (fun _ => trivial) ?_
      intro others s₃ _ hOthers
      obtain ⟨walked', h₃⟩ := hOthers
      refine Scan.judges_pure trivial ⟨⟨walked'.goesOn, ?_, fun o hMem => ?_⟩, h₃⟩
      · rw [walked.leaves_eq, walked'.leaves_eq, List.flatMap_cons, List.map_append]
      · obtain before | ⟨j, hj, below⟩ := walked'.opened_below o hMem
        · exact (walked.opened_below o before).imp_right fun below =>
            ⟨i, List.mem_cons_self, below⟩
        · exact .inr ⟨j, List.mem_cons_of_mem _ hj, below⟩

/-- With as many levels as are left, every directory that is reached finds its leaves. -/
theorem opens_of_reached {depth : Nat} (covers : limits.CoversAll)
    (tree : IsTree ctx content root) (intact : Intact ctx content root)
    (within : Within ctx content root depth) (hd : Reached content root ctx path directory)
    (hLevels : depth = path.length + levels) :
    Opens ctx content limits position root levels path directory := by
  induction levels generalizing path directory with
  | zero =>
      have hPath := within path directory hd
      omega
  | succ levels ih =>
      intro s opened room h unopened few
      have hNew : ¬ opened.contains directory = true := by
        rw [List.contains_iff_mem]
        exact unopened directory .refl
      rw [flatten, if_neg hNew]
      refine (judges_readSlots h covers (intact.slots hd)).bind (fun _ => trivial) ?_
      intro slots s₁ _ hSlots
      obtain ⟨rfl, h₁⟩ := hSlots
      have opens : ∀ {i child}, Links content root directory i child →
          Opens ctx content limits position root levels
            (path ++ [idAt content root ctx directory i]) child := by
        intro i child links
        refine ih (hd.link links) ?_
        rw [List.length_append, List.length_singleton]
        omega
      have unopened' : ∀ i ∈ List.range (slotCount content (root + directory)), ∀ o,
          BelowSlot content root directory i o → o ∉ directory :: opened := by
        intro i _ o below hMem
        obtain rfl | before := List.mem_cons.mp hMem
        · exact tree.not_belowSlot_self hd below
        · exact unopened o below.below before
      refine (judges_flattenSlots h₁ covers tree intact hd (fun _ => List.mem_range.mp)
        List.nodup_range opens unopened' few).mono ?_
      intro found s₂ _ hFound
      obtain ⟨walked, h₂⟩ := hFound
      refine ⟨⟨walked.goesOn, walked.leaves_eq, fun o hMem => ?_⟩, h₂⟩
      obtain before | ⟨i, -, below⟩ := walked.opened_below o hMem
      · obtain rfl | before := List.mem_cons.mp before
        · exact .inr .refl
        · exact .inl before
      · exact .inr below.below

theorem judges_read (h : s.Reads content limits position) (covers : limits.CoversAll)
    (tree : IsTree ctx content position) (intact : Intact ctx content position)
    (within : Within ctx content position ctx.options.maxResourceDepth.toNat)
    (few : (depthFirst ctx content position ctx.options.maxResourceDepth.toNat [] 0).length ≤
      ctx.options.maxResourceEntries.toNat) :
    Scan.Judges limits (read ctx) s True (fun _ => True) fun entries _ =>
      entries = (depthFirst ctx content position ctx.options.maxResourceDepth.toNat [] 0).map
        (entryOf content position) := by
  refine Scan.judges_reader_bind ?_
  rw [h.position_eq]
  have opens : Opens ctx content limits position position
      ctx.options.maxResourceDepth.toNat [] 0 :=
    opens_of_reached covers tree intact within .root (Nat.zero_add _).symm
  refine (opens h (fun _ _ => List.not_mem_nil) few).bind (fun _ => trivial) ?_
  intro found s₁ _ hFound
  exact Scan.judges_emit_bind fun _ => Scan.judges_pure trivial hFound.1.leaves_eq

/-- What is read of a tree are its leaves depth first, and that is every leaf once. The tree may
begin at any 32-bit place, as all places are that an address leads to. -/
theorem read_flattens_tree (inside : s.reader.Inside) (hPosition : s.reader.position < 2 ^ 32)
    (unrefused : (read ctx).Unrefused s)
    (tree : IsTree ctx s.reader.content s.reader.position)
    (intact : Intact ctx s.reader.content s.reader.position)
    (within : Within ctx s.reader.content s.reader.position
      ctx.options.maxResourceDepth.toNat)
    (few : (depthFirst ctx s.reader.content s.reader.position
      ctx.options.maxResourceDepth.toNat [] 0).length ≤ ctx.options.maxResourceEntries.toNat) :
    let leaves := depthFirst ctx s.reader.content s.reader.position
      ctx.options.maxResourceDepth.toNat [] 0
    (read ctx).delivered? s =
        some (leaves.map (entryOf s.reader.content s.reader.position)) ∧
      (leaves.map fun leaf => (leaf.directory, leaf.index)).Nodup ∧
        ∀ leaf, leaf ∈ leaves ↔ IsLeaf ctx s.reader.content s.reader.position leaf := by
  intro leaves
  have respects : (read ctx).Respects untilRefused :=
    respects_read lawful_untilRefused recovers_untilRefused
  have judged := judges_read (s.reads_withLargestBudget inside) s.coversAll_withLargestBudget
    tree intact within few
  have verdict := unrefused.verdict inside respects (fun sound => safe_read sound hPosition) judged
  obtain ⟨entries, hRead⟩ := verdict.delivers_iff.mpr trivial
  refine ⟨?_, nodup_depthFirst tree .root, fun leaf => mem_depthFirst_iff within⟩
  rw [hRead, verdict.holds entries hRead]

/-- A directory with a directory and a leaf in it. The inner one has a leaf with a number and one
with a name, whose units are a letter, a pair of surrogates and a surrogate without a partner. -/
def twoLevels : Session where
  reader :=
    { label := "memory"
      content := ⟨#[0, 0, 0, 0,
        0, 0, 0, 0, 0, 0, 0, 0, 0, 0, 0, 0, 0, 0, 2, 0,
        5, 0, 0, 0, 32, 0, 0, 0x80, 9, 0, 0, 0, 96, 0, 0, 0,
        0, 0, 0, 0, 0, 0, 0, 0, 0, 0, 0, 0, 1, 0, 1, 0,
        112, 0, 0, 0x80, 64, 0, 0, 0, 7, 0, 0, 0, 80, 0, 0, 0,
        0, 16, 0, 0, 1, 0, 0, 0, 0, 0, 0, 0, 0, 0, 0, 0,
        0, 32, 0, 0, 2, 0, 0, 0, 0, 0, 0, 0, 0, 0, 0, 0,
        0, 48, 0, 0, 3, 0, 0, 0, 228, 4, 0, 0, 0, 0, 0, 0,
        4, 0, 72, 0, 0x3D, 0xD8, 0x00, 0xDE, 0x00, 0xD8]⟩
      limits := {}
      position := 4 }

section TwoLevels

def twoLevelsContext : Context := ⟨{}, {}⟩

/-- The directories with their paths. -/
def twoLevelsDirectories : List (List ResourceId × Nat) := [([], 0), ([.id 5], 32)]

theorem mem_twoLevelsDirectories
    (h : Reached twoLevels.reader.content 4 twoLevelsContext path directory) :
    (path, directory) ∈ twoLevelsDirectories := by
  have closed : ∀ node ∈ twoLevelsDirectories,
      ∀ i < slotCount twoLevels.reader.content (4 + node.2),
        2 ^ 31 ≤ targetWord twoLevels.reader.content (4 + node.2) i →
          (node.1 ++ [idAt twoLevels.reader.content 4 twoLevelsContext node.2 i],
            targetWord twoLevels.reader.content (4 + node.2) i % 2 ^ 31) ∈
              twoLevelsDirectories := by decide +kernel
  induction h with
  | root => exact List.mem_cons_self
  | link _ links ih =>
      obtain ⟨hi, high, rfl⟩ := links
      exact closed _ ih _ hi high

/-- There is one link. -/
theorem links_twoLevels {child : Nat}
    (hd : Reached twoLevels.reader.content 4 twoLevelsContext path directory)
    (links : Links twoLevels.reader.content 4 directory i child) :
    directory = 0 ∧ i = 0 ∧ child = 32 := by
  have only : ∀ node ∈ twoLevelsDirectories,
      ∀ i < slotCount twoLevels.reader.content (4 + node.2),
        2 ^ 31 ≤ targetWord twoLevels.reader.content (4 + node.2) i →
          node.2 = 0 ∧ i = 0 ∧
            targetWord twoLevels.reader.content (4 + node.2) i % 2 ^ 31 = 32 := by
    decide +kernel
  obtain ⟨hi, high, rfl⟩ := links
  exact only _ (mem_twoLevelsDirectories hd) i hi high

theorem isTree_twoLevels : IsTree twoLevelsContext twoLevels.reader.content 4 := by
  constructor
  · intro path directory i hd links
    obtain ⟨-, -, impossible⟩ := links_twoLevels hd links
    cases impossible
  · intro path path' directory directory' i i' child hd hd' links links'
    obtain ⟨rfl, rfl, -⟩ := links_twoLevels hd links
    obtain ⟨rfl, rfl, -⟩ := links_twoLevels hd' links'
    exact ⟨rfl, rfl⟩

theorem intact_twoLevels : Intact twoLevelsContext twoLevels.reader.content 4 := by
  have directories : ∀ node ∈ twoLevelsDirectories,
      4 + node.2 + 16 ≤ twoLevels.reader.content.size ∧
        4 + node.2 + 16 + 8 * slotCount twoLevels.reader.content (4 + node.2) ≤
          twoLevels.reader.content.size := by decide +kernel
  have names : ∀ node ∈ twoLevelsDirectories,
      ∀ i < slotCount twoLevels.reader.content (4 + node.2),
        let word := nameWord twoLevels.reader.content (4 + node.2) i
        2 ^ 31 ≤ word →
          let place := 4 + word % 2 ^ 31
          place + 2 ≤ twoLevels.reader.content.size ∧
            place + 2 + 2 * min (number twoLevels.reader.content place 2)
              twoLevelsContext.maxStringLength ≤ twoLevels.reader.content.size := by
    decide +kernel
  have leaves : ∀ node ∈ twoLevelsDirectories,
      ∀ i < slotCount twoLevels.reader.content (4 + node.2),
        let word := targetWord twoLevels.reader.content (4 + node.2) i
        word < 2 ^ 31 → 4 + word + 16 ≤ twoLevels.reader.content.size := by
    decide +kernel
  exact ⟨fun hd => (directories _ (mem_twoLevelsDirectories hd)).1,
    fun hd => (directories _ (mem_twoLevelsDirectories hd)).2,
    fun hd hi => names _ (mem_twoLevelsDirectories hd) _ hi,
    fun hd hi => leaves _ (mem_twoLevelsDirectories hd) _ hi⟩

theorem within_twoLevels : Within twoLevelsContext twoLevels.reader.content 4 8 := by
  intro path directory hd
  have short : ∀ node ∈ twoLevelsDirectories, node.1.length < 8 := by decide
  exact short _ (mem_twoLevelsDirectories hd)

theorem read_flattens_tree_twoLevels :
    twoLevels.reader.Inside ∧ twoLevels.reader.position < 2 ^ 32 ∧
      (read twoLevelsContext).Unrefused twoLevels ∧
      IsTree twoLevelsContext twoLevels.reader.content 4 ∧
      Intact twoLevelsContext twoLevels.reader.content 4 ∧
      Within twoLevelsContext twoLevels.reader.content 4 8 ∧
      (depthFirst twoLevelsContext twoLevels.reader.content 4 8 [] 0).length ≤ 10000 ∧
      (read twoLevelsContext).delivered? twoLevels =
        some [⟨[.id 5, .name "H😀\ufffd"], 4096, 1, 0⟩, ⟨[.id 5, .id 7], 8192, 2, 0⟩,
          ⟨[.id 9], 12288, 3, 1252⟩] := by
  have inside : twoLevels.reader.Inside :=
    ⟨by decide +kernel, by decide +kernel, fun _ => by decide⟩
  have unrefused : (read twoLevelsContext).Unrefused twoLevels :=
    costs_read.unrefused (by decide +kernel) (by decide) costs_read
  have few : (depthFirst twoLevelsContext twoLevels.reader.content 4 8 [] 0).length ≤ 10000 := by
    decide +kernel
  have hLeaves := (read_flattens_tree inside (by decide) unrefused isTree_twoLevels
    intact_twoLevels within_twoLevels few).1
  have hEntries : (depthFirst twoLevelsContext twoLevels.reader.content 4 8 [] 0).map
      (entryOf twoLevels.reader.content 4) =
        [⟨[.id 5, .name "H😀\ufffd"], 4096, 1, 0⟩, ⟨[.id 5, .id 7], 8192, 2, 0⟩,
          ⟨[.id 9], 12288, 3, 1252⟩] := by decide +kernel
  exact ⟨inside, by decide, unrefused, isTree_twoLevels, intact_twoLevels, within_twoLevels, few,
    hLeaves.trans (congrArg some hEntries)⟩

end TwoLevels

end Resource
end PortableExecutable
