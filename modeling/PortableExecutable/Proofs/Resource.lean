import PortableExecutable.Resource

/-!
The slots of one directory of the resource tree, cut behind the first: what that slot leads to, and
the slots that are left.
-/

namespace PortableExecutable
namespace Resource

/-- Follows a slot to the subdirectory or the leaf that it points to. -/
def readTarget (ctx : Context) (root : Nat)
    (descend : List ResourceId → Nat → List Nat → Nat → ImageScan Flattened)
    (path : List ResourceId) (slot : ResourceSlot) (opened : List Nat) (room : Nat) :
    ImageScan Flattened :=
  if ResourceSlot.isOffset slot.target then
    descend path (ResourceSlot.offset slot.target) opened room
  else readLeaf ctx root path (ResourceSlot.offset slot.target) opened room

/-- Adds what the slots that are left give, unless there is no going on. -/
def proceed (others : List Nat → Nat → ImageScan Flattened) (room : Nat) (first : Flattened) :
    ImageScan Flattened :=
  if first.goesOn then do
    let found ← others first.opened (room - first.leaves.length)
    return { found with leaves := first.leaves ++ found.leaves }
  else pure first

theorem flattenSlots_cons {ctx : Context} {root : Nat}
    {descend : List ResourceId → Nat → List Nat → Nat → ImageScan Flattened}
    {path : List ResourceId} {slot : ResourceSlot} {rest : List ResourceSlot} {opened : List Nat}
    {room : Nat} :
    flattenSlots ctx root descend path (slot :: rest) opened room =
      readId ctx root slot >>= fun id =>
        readTarget ctx root descend (path ++ [id]) slot opened room >>=
          proceed (flattenSlots ctx root descend path rest) room := by
  rw [flattenSlots]
  refine bind_congr fun id => ?_
  rw [readTarget]
  split
  · rfl
  · rfl

end Resource
end PortableExecutable
