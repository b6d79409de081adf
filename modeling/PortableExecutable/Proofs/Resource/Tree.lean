import Mathlib.Data.List.Nodup
import Mathlib.Logic.Relation
import PortableExecutable.Proofs.Stored
import PortableExecutable.Proofs.Text.Utf16
import PortableExecutable.Resource

/-!
What a resource directory is in a file: tables of slots that link to each other, or to the data of
a leaf. The links make a tree if none leads to the root and no two lead to the same table. Then what
lies below one slot lies below no other one, so that going down the slots in order comes to every
leaf and to none of them twice.
-/

namespace PortableExecutable

open Layout

/-- The name at a place: a length and as many 16-bit units, as far as names are read. -/
def Context.unitsAt (ctx : Context) (content : ByteArray) (place : Nat) : List UInt16 :=
  (List.range (min (number content place 2) ctx.maxStringLength)).map fun k =>
    UInt16.ofNat (entry16 content (place + 2) k)

namespace Resource

section Slots

variable (content : ByteArray)

/-- The slots with names and those with numbers are counted apart. -/
def slotCount (place : Nat) : Nat := number content (place + 12) 2 + number content (place + 14) 2

def nameWord (place i : Nat) : Nat := number content (place + 16 + 8 * i) 4

def targetWord (place i : Nat) : Nat := number content (place + 16 + (8 * i + 4)) 4

def leafAt (path : List ResourceId) (place : Nat) : ResourceEntry where
  path := path
  dataRva := UInt32.ofNat (number content (place + 0) 4)
  size := UInt32.ofNat (number content (place + 4) 4)
  codePage := UInt32.ofNat (number content (place + 8) 4)

variable (root : Nat)

/-- A slot of the directory at an offset into the tree leads to the directory at another one: the
top bit of its word is set, and the other bits are the offset. -/
structure Links (directory i child : Nat) : Prop where
  index_lt : i < slotCount content (root + directory)
  high : 2 ^ 31 ≤ targetWord content (root + directory) i
  offset_eq : targetWord content (root + directory) i % 2 ^ 31 = child

def Below : Nat → Nat → Prop :=
  Relation.ReflTransGen fun directory child => ∃ i, Links content root directory i child

/-- The directory is reached through one slot of another one. -/
def BelowSlot (directory i reached : Nat) : Prop :=
  ∃ child, Links content root directory i child ∧ Below content root child reached

variable (ctx : Context)

/-- Who a slot is for: the name at an offset, if the top bit of its word is set, or a number. -/
def idAt (directory i : Nat) : ResourceId :=
  let word := nameWord content (root + directory) i
  if 2 ^ 31 ≤ word then .name (Utf16.decode (ctx.unitsAt content (root + word % 2 ^ 31)))
  else .id (UInt32.ofNat word)

/-- A slot is called by the text whose encoding is stored as its name. -/
theorem idAt_of_encode {directory i : Nat} {text : String}
    (named : 2 ^ 31 ≤ nameWord content (root + directory) i)
    (stored : ctx.unitsAt content (root + nameWord content (root + directory) i % 2 ^ 31) =
      Utf16.encode text) : idAt content root ctx directory i = .name text := by
  rw [idAt, if_pos named, stored, Utf16.decode_encode]

inductive Reached : List ResourceId → Nat → Prop
  | root : Reached [] 0
  | link {path : List ResourceId} {directory i child : Nat} :
      Reached path directory → Links content root directory i child →
        Reached (path ++ [idAt content root ctx directory i]) child

end Slots

section Shape

variable (ctx : Context) (content : ByteArray) (root : Nat)

structure IsTree : Prop where
  root_unlinked : ∀ {path directory i}, Reached content root ctx path directory →
    ¬ Links content root directory i 0
  linked_once : ∀ {path path' directory directory' i i' child},
    Reached content root ctx path directory → Reached content root ctx path' directory' →
      Links content root directory i child → Links content root directory' i' child →
        directory = directory' ∧ i = i'

/-- The file has the directories that are reached, their names and the data of their leaves. -/
structure Intact : Prop where
  header : ∀ {path directory}, Reached content root ctx path directory →
    root + directory + 16 ≤ content.size
  slots : ∀ {path directory}, Reached content root ctx path directory →
    root + directory + 16 + 8 * slotCount content (root + directory) ≤ content.size
  names : ∀ {path directory i}, Reached content root ctx path directory →
    i < slotCount content (root + directory) →
      let word := nameWord content (root + directory) i
      2 ^ 31 ≤ word →
        let place := root + word % 2 ^ 31
        place + 2 ≤ content.size ∧
          place + 2 + 2 * min (number content place 2) ctx.maxStringLength ≤ content.size
  leaves : ∀ {path directory i}, Reached content root ctx path directory →
    i < slotCount content (root + directory) →
      let word := targetWord content (root + directory) i
      word < 2 ^ 31 → root + word + 16 ≤ content.size

def Within (levels : Nat) : Prop :=
  ∀ path directory, Reached content root ctx path directory → path.length < levels

end Shape

section Links

variable {ctx : Context} {content : ByteArray} {root : Nat} {path : List ResourceId}
  {directory i j child reached a b c : Nat}

theorem Reached.of_below (h : Reached content root ctx path a) (below : Below content root a b) :
    ∃ path, Reached content root ctx path b := by
  induction below with
  | refl => exact ⟨path, h⟩
  | tail _ links ih =>
      obtain ⟨path', h'⟩ := ih
      obtain ⟨i, hLinks⟩ := links
      exact ⟨_, h'.link hLinks⟩

theorem BelowSlot.below (h : BelowSlot content root directory i reached) :
    Below content root directory reached := by
  obtain ⟨child, links, below⟩ := h
  exact .head ⟨i, links⟩ below

namespace IsTree

variable (tree : IsTree ctx content root)

include tree

/-- A directory has nothing above it but what is above the slot that leads to it. -/
theorem below_of_links (hd : Reached content root ctx path directory)
    (links : Links content root directory i child) {path' : List ResourceId}
    (ha : Reached content root ctx path' a) (below : Below content root a child) :
    a = child ∨ Below content root a directory := by
  cases below with
  | refl => exact .inl rfl
  | tail below last =>
      obtain ⟨j, hLast⟩ := last
      obtain ⟨_, hb⟩ := ha.of_below below
      obtain ⟨rfl, -⟩ := tree.linked_once hb hd hLast links
      exact .inr below

theorem not_belowSlot_self (h : Reached content root ctx path directory) :
    ¬ BelowSlot content root directory i directory := by
  induction h generalizing i with
  | root =>
      rintro ⟨child, links, below⟩
      have hRoot : Reached content root ctx [] 0 := .root
      have hChild := hRoot.link links
      cases below with
      | refl => exact tree.root_unlinked .root links
      | tail below last =>
          obtain ⟨j, hLast⟩ := last
          obtain ⟨_, hb⟩ := hChild.of_below below
          exact tree.root_unlinked hb hLast
  | @link path directory j child hd above ih =>
      rintro ⟨grandchild, links, below⟩
      have hChild := hd.link above
      -- the way back to the child comes through its parent, which then is below itself
      obtain same | below' := tree.below_of_links hd above (hChild.link links) below
      · subst same
        obtain ⟨rfl, -⟩ := tree.linked_once hd hChild above links
        exact ih ⟨_, above, .refl⟩
      · exact ih ⟨child, above, .head ⟨i, links⟩ below'⟩

theorem below_or_below {path' : List ResourceId} (ha : Reached content root ctx path a)
    (hb : Reached content root ctx path' b) (hac : Below content root a c)
    (hbc : Below content root b c) : Below content root a b ∨ Below content root b a := by
  induction hac with
  | refl => exact .inr hbc
  | @tail x c hax last ih =>
      obtain ⟨i, hLast⟩ := last
      obtain ⟨_, hx⟩ := ha.of_below hax
      obtain rfl | hbx := tree.below_of_links hx hLast hb hbc
      · exact .inl (hax.tail ⟨i, hLast⟩)
      · exact ih hbx

theorem eq_of_links_below {child' : Nat} (hd : Reached content root ctx path directory)
    (links : Links content root directory i child)
    (links' : Links content root directory j child')
    (below : Below content root child child') : i = j := by
  obtain rfl | back := tree.below_of_links hd links' (hd.link links) below
  · exact (tree.linked_once hd hd links links').2
  · exact absurd ⟨child, links, back⟩ (tree.not_belowSlot_self hd)

/-- What is below one slot of a directory is below no other one. -/
theorem slot_eq (hd : Reached content root ctx path directory)
    (hi : BelowSlot content root directory i reached)
    (hj : BelowSlot content root directory j reached) : i = j := by
  obtain ⟨child, links, below⟩ := hi
  obtain ⟨child', links', below'⟩ := hj
  obtain down | up := tree.below_or_below (hd.link links) (hd.link links') below below'
  · exact tree.eq_of_links_below hd links links' down
  · exact (tree.eq_of_links_below hd links' links up).symm

end IsTree
end Links

structure Leaf where
  directory : Nat
  index : Nat
  path : List ResourceId
  deriving DecidableEq

section Leaves

variable (ctx : Context) (content : ByteArray) (root : Nat)

/-- The leaves behind one slot, where `below` gives those of a directory. -/
def slotLeaves (below : List ResourceId → Nat → List Leaf) (path : List ResourceId)
    (directory i : Nat) : List Leaf :=
  let word := targetWord content (root + directory) i
  let here := path ++ [idAt content root ctx directory i]
  if 2 ^ 31 ≤ word then below here (word % 2 ^ 31) else [⟨directory, i, here⟩]

/-- The leaves below a directory, depth first and in the order of the slots. -/
def depthFirst : Nat → List ResourceId → Nat → List Leaf
  | 0, _, _ => []
  | levels + 1, path, directory =>
    (List.range (slotCount content (root + directory))).flatMap
      (slotLeaves ctx content root (depthFirst levels) path directory)

def leavesBehind (levels : Nat) (path : List ResourceId) (directory i : Nat) : List Leaf :=
  slotLeaves ctx content root (depthFirst ctx content root levels) path directory i

/-- The leaf is a slot of a directory that is reached, and it leads to data. -/
def IsLeaf (leaf : Leaf) : Prop :=
  ∃ path, Reached content root ctx path leaf.directory ∧
    leaf.index < slotCount content (root + leaf.directory) ∧
    targetWord content (root + leaf.directory) leaf.index < 2 ^ 31 ∧
    leaf.path = path ++ [idAt content root ctx leaf.directory leaf.index]

def entryOf (leaf : Leaf) : ResourceEntry :=
  leafAt content leaf.path (root + targetWord content (root + leaf.directory) leaf.index)

end Leaves

section Order

variable {ctx : Context} {content : ByteArray} {root levels : Nat} {path : List ResourceId}
  {directory i child : Nat} {leaf : Leaf}

theorem depthFirst_succ :
    depthFirst ctx content root (levels + 1) path directory =
      (List.range (slotCount content (root + directory))).flatMap
        (leavesBehind ctx content root levels path directory) := rfl

theorem leavesBehind_of_le (h : 2 ^ 31 ≤ targetWord content (root + directory) i) :
    leavesBehind ctx content root levels path directory i =
      depthFirst ctx content root levels (path ++ [idAt content root ctx directory i])
        (targetWord content (root + directory) i % 2 ^ 31) :=
  if_pos h

theorem leavesBehind_of_lt (h : targetWord content (root + directory) i < 2 ^ 31) :
    leavesBehind ctx content root levels path directory i =
      [⟨directory, i, path ++ [idAt content root ctx directory i]⟩] :=
  if_neg (Nat.not_le_of_lt h)

theorem links_of_le (hi : i < slotCount content (root + directory))
    (h : 2 ^ 31 ≤ targetWord content (root + directory) i) :
    Links content root directory i (targetWord content (root + directory) i % 2 ^ 31) :=
  ⟨hi, h, rfl⟩

theorem below_of_mem_depthFirst (h : leaf ∈ depthFirst ctx content root levels path directory) :
    Below content root directory leaf.directory := by
  induction levels generalizing path directory with
  | zero => nomatch h
  | succ levels ih =>
      rw [depthFirst_succ] at h
      obtain ⟨i, hi, hLeaf⟩ := List.mem_flatMap.mp h
      rw [List.mem_range] at hi
      obtain high | low := (Nat.lt_or_ge (targetWord content (root + directory) i) (2 ^ 31)).symm
      · rw [leavesBehind_of_le high] at hLeaf
        exact .head ⟨i, links_of_le hi high⟩ (ih hLeaf)
      · rw [leavesBehind_of_lt low, List.mem_singleton] at hLeaf
        rw [hLeaf]
        exact .refl

/-- A leaf behind a slot is that slot itself, or it is below the slot. -/
theorem mem_leavesBehind (hi : i < slotCount content (root + directory))
    (h : leaf ∈ leavesBehind ctx content root levels path directory i) :
    (leaf.directory = directory ∧ leaf.index = i) ∨
      BelowSlot content root directory i leaf.directory := by
  obtain high | low := (Nat.lt_or_ge (targetWord content (root + directory) i) (2 ^ 31)).symm
  · rw [leavesBehind_of_le high] at h
    exact .inr ⟨_, links_of_le hi high, below_of_mem_depthFirst h⟩
  · rw [leavesBehind_of_lt low, List.mem_singleton] at h
    rw [h]
    exact .inl ⟨rfl, rfl⟩

theorem isLeaf_of_mem_depthFirst (hd : Reached content root ctx path directory)
    (h : leaf ∈ depthFirst ctx content root levels path directory) :
    IsLeaf ctx content root leaf := by
  induction levels generalizing path directory with
  | zero => nomatch h
  | succ levels ih =>
      rw [depthFirst_succ] at h
      obtain ⟨i, hi, hLeaf⟩ := List.mem_flatMap.mp h
      rw [List.mem_range] at hi
      obtain high | low := (Nat.lt_or_ge (targetWord content (root + directory) i) (2 ^ 31)).symm
      · rw [leavesBehind_of_le high] at hLeaf
        exact ih (hd.link (links_of_le hi high)) hLeaf
      · rw [leavesBehind_of_lt low, List.mem_singleton] at hLeaf
        rw [hLeaf]
        exact ⟨path, hd, hi, low, rfl⟩

theorem mem_depthFirst_succ (hi : i < slotCount content (root + directory))
    (h : leaf ∈ leavesBehind ctx content root levels path directory i) :
    leaf ∈ depthFirst ctx content root (levels + 1) path directory :=
  List.mem_flatMap.mpr ⟨i, List.mem_range.mpr hi, h⟩

theorem Within.exists_levels (within : Within ctx content root levels)
    (hd : Reached content root ctx path directory) :
    ∃ rest, levels = path.length + (rest + 1) := by
  have hPath := within path directory hd
  exact ⟨levels - path.length - 1, by omega⟩

theorem depthFirst_subset {rest : Nat} (hd : Reached content root ctx path directory)
    (hRest : levels = path.length + rest)
    (h : leaf ∈ depthFirst ctx content root rest path directory) :
    leaf ∈ depthFirst ctx content root levels [] 0 := by
  induction hd generalizing rest with
  | root =>
      rw [List.length_nil, Nat.zero_add] at hRest
      rwa [hRest]
  | @link path directory i child hd links ih =>
      rw [List.length_append, List.length_singleton] at hRest
      have hLevels : levels = path.length + (rest + 1) := by omega
      refine ih hLevels (mem_depthFirst_succ links.index_lt ?_)
      rw [leavesBehind_of_le links.high, links.offset_eq]
      exact h

theorem mem_depthFirst_iff (within : Within ctx content root levels) :
    leaf ∈ depthFirst ctx content root levels [] 0 ↔ IsLeaf ctx content root leaf := by
  refine ⟨isLeaf_of_mem_depthFirst .root, ?_⟩
  rintro ⟨path, hd, hi, low, hPath⟩
  obtain ⟨rest, hRest⟩ := within.exists_levels hd
  refine depthFirst_subset hd hRest (mem_depthFirst_succ hi ?_)
  rw [leavesBehind_of_lt low, List.mem_singleton, ← hPath]

theorem slot_eq_of_mem_leavesBehind {j : Nat} {leaf' : Leaf} (tree : IsTree ctx content root)
    (hd : Reached content root ctx path directory) (hi : i < slotCount content (root + directory))
    (hj : j < slotCount content (root + directory))
    (h : leaf ∈ leavesBehind ctx content root levels path directory i)
    (h' : leaf' ∈ leavesBehind ctx content root levels path directory j)
    (hDirectory : leaf'.directory = leaf.directory) (hIndex : leaf'.index = leaf.index) :
    i = j := by
  obtain ⟨hOwn, rfl⟩ | below := mem_leavesBehind hi h
  · obtain ⟨-, rfl⟩ | below' := mem_leavesBehind hj h'
    · exact hIndex.symm
    · rw [hDirectory, hOwn] at below'
      exact absurd below' (tree.not_belowSlot_self hd)
  · obtain ⟨hOwn', -⟩ | below' := mem_leavesBehind hj h'
    · rw [← hDirectory, hOwn'] at below
      exact absurd below (tree.not_belowSlot_self hd)
    · rw [hDirectory] at below'
      exact tree.slot_eq hd below below'

theorem nodup_depthFirst (tree : IsTree ctx content root)
    (hd : Reached content root ctx path directory) :
    ((depthFirst ctx content root levels path directory).map fun leaf =>
      (leaf.directory, leaf.index)).Nodup := by
  induction levels generalizing path directory with
  | zero => exact List.nodup_nil
  | succ levels ih =>
      rw [depthFirst_succ, List.map_flatMap, List.nodup_flatMap]
      constructor
      · intro i hi
        rw [List.mem_range] at hi
        obtain high | low := (Nat.lt_or_ge (targetWord content (root + directory) i) (2 ^ 31)).symm
        · rw [leavesBehind_of_le high]
          exact ih (hd.link (links_of_le hi high))
        · rw [leavesBehind_of_lt low]
          exact List.nodup_singleton _
      · refine List.nodup_range.imp_of_mem fun {i j} hi hj distinct => ?_
        rw [List.mem_range] at hi hj
        refine List.disjoint_left.mpr ?_
        rintro _ hLeft hRight
        obtain ⟨leaf, hLeaf, rfl⟩ := List.mem_map.mp hLeft
        obtain ⟨leaf', hLeaf', same⟩ := List.mem_map.mp hRight
        obtain ⟨hDirectory, hIndex⟩ := Prod.mk.inj same
        exact distinct (slot_eq_of_mem_leavesBehind tree hd hi hj hLeaf hLeaf' hDirectory hIndex)

end Order
end Resource
end PortableExecutable
