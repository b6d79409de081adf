import PortableExecutable.Proofs.Export.Layout

/-!
Names that overwrite each other. Going through the links between names and functions from front to
back leaves each function with the last name that was linked to it, and without one if there was
none.
-/

namespace PortableExecutable
namespace Export

open Layout

variable {ctx : Context} {content : ByteArray}

/-- The last of the names for a function. -/
def lastLink? (links : List (UInt32 × UInt16)) (i : Nat) : Option (UInt32 × UInt16) :=
  links.reverse.find? (·.2.toNat == i)

/-- A function under the last of its names. -/
def renamed (ctx : Context) (content : ByteArray) (links : List (UInt32 × UInt16)) (i : Nat)
    (f : ExportedFunction) : ExportedFunction :=
  { f with
    name := ((lastLink? links i).map fun link => ctx.textAt content link.1.toNat).or f.name }

theorem lastLink?_cons {link : UInt32 × UInt16} {links : List (UInt32 × UInt16)} {i : Nat} :
    lastLink? (link :: links) i =
      (lastLink? links i).or (if link.2.toNat = i then some link else none) := by
  rw [lastLink?, lastLink?, List.reverse_cons, List.find?_append, List.find?_singleton]
  simp only [beq_iff_eq]

theorem lastLink?_eq_none {links : List (UInt32 × UInt16)} {i : Nat}
    (h : ∀ k (hk : k < links.length), links[k].2.toNat ≠ i) : lastLink? links i = none := by
  rw [lastLink?, List.find?_eq_none]
  intro link hMem
  obtain ⟨k, hk, rfl⟩ := List.mem_iff_getElem.mp (List.mem_reverse.mp hMem)
  simpa using h k hk

theorem lastLink?_eq_some {links : List (UInt32 × UInt16)} {i j : Nat} (hj : j < links.length)
    (hIndex : links[j].2.toNat = i)
    (last : ∀ k (hk : k < links.length), j < k → links[k].2.toNat ≠ i) :
    lastLink? links i = some links[j] := by
  induction links generalizing j with
  | nil => exact absurd hj (Nat.not_lt_zero _)
  | cons link rest ih =>
      rw [lastLink?_cons]
      cases j with
      | zero =>
          have later : lastLink? rest i = none := lastLink?_eq_none fun k hk =>
            last (k + 1) (Nat.succ_lt_succ hk) (Nat.zero_lt_succ k)
          rw [later, Option.none_or, List.getElem_cons_zero]
          exact if_pos hIndex
      | succ j =>
          have later := ih (Nat.lt_of_succ_lt_succ hj) hIndex fun k hk hjk =>
            last (k + 1) (Nat.succ_lt_succ hk) (Nat.succ_lt_succ hjk)
          rw [later, Option.some_or, List.getElem_cons_succ]

/-- Names and the functions they name, as two tables have them. -/
structure Links (content : ByteArray) (count names indices : Nat)
    (links : List (UInt32 × UInt16)) : Prop where
  length_eq : links.length = count
  nameRva_eq : ∀ j (h : j < links.length), links[j].1.toNat = entry32 content names j
  index_eq : ∀ j (h : j < links.length), links[j].2.toNat = entry16 content indices j

theorem links_zip {count names indices : Nat} {r : Record (count * 4)} {r' : Record (count * 2)}
    (hNames : r.StoredAt content names) (hIndices : r'.StoredAt content indices) :
    Links content count names indices (r.table32.zip r'.table16) where
  length_eq := by rw [List.length_zip, r.length_table32, r'.length_table16, Nat.min_self]
  nameRva_eq j h := by
    rw [List.getElem_zip]
    exact hNames.getElem_table32 _
  index_eq j h := by
    rw [List.getElem_zip]
    exact hIndices.getElem_table16 _

namespace Links

variable {count names indices : Nat} {links : List (UInt32 × UInt16)}

theorem forall_iff (h : Links content count names indices links) {p : Nat → Nat → Prop} :
    (∀ link ∈ links, p link.2.toNat link.1.toNat) ↔
      ∀ j < count, p (entry16 content indices j) (entry32 content names j) := by
  rw [List.forall_mem_iff_forall_getElem]
  simp only [h.index_eq, h.nameRva_eq, h.length_eq]

theorem names_lastLink (h : Links content count names indices links) (i : Nat) :
    Names ctx content count names indices i
      ((lastLink? links i).map fun link => ctx.textAt content link.1.toNat) where
  last j hj hIndex hLast := by
    have inside : j < links.length := h.length_eq ▸ hj
    have hLink : lastLink? links i = some links[j] := by
      refine lastLink?_eq_some inside ((h.index_eq j inside).trans hIndex) fun k hk hjk => ?_
      rw [h.index_eq k hk]
      exact hLast k (h.length_eq ▸ hk) hjk
    rw [hLink, Option.map_some, h.nameRva_eq j inside]
  none unnamed := by
    have hLink : lastLink? links i = none := lastLink?_eq_none fun k hk => by
      rw [h.index_eq k hk]
      exact unnamed k (h.length_eq ▸ hk)
    rw [hLink, Option.map_none]

end Links

/-- Overwriting one name and then the others. -/
theorem mapIdx_renamed_set {nameRva : UInt32} {index : UInt16}
    {rest : List (UInt32 × UInt16)} {functions : Array ExportedFunction}
    (inside : index.toNat < functions.size) :
    (functions.set index.toNat
      { functions[index.toNat] with name := some (ctx.textAt content nameRva.toNat) }
      inside).mapIdx (renamed ctx content rest) =
      functions.mapIdx (renamed ctx content ((nameRva, index) :: rest)) := by
  apply Array.ext
  · simp only [Array.size_mapIdx, Array.size_set]
  · intro i _ _
    simp only [Array.getElem_mapIdx, Array.getElem_set, renamed, lastLink?_cons]
    by_cases same : index.toNat = i
    · subst same
      simp only [if_true]
      cases lastLink? rest index.toNat <;> rfl
    · simp only [same, if_false, Option.or_none]

theorem mapIdx_renamed_nil {functions : Array ExportedFunction} :
    functions.mapIdx (renamed ctx content []) = functions := by
  apply Array.ext
  · exact Array.size_mapIdx
  · intro i _ _
    rw [Array.getElem_mapIdx]
    rfl

/-- The functions keep everything but their names, which the tables of names tell. -/
structure NamedBy (ctx : Context) (content : ByteArray) (count names indices : Nat)
    (functions named : Array ExportedFunction) : Prop where
  size_eq : named.size = functions.size
  kept : ∀ i (h : i < functions.size) (h' : i < named.size),
    named[i] = { functions[i] with name := named[i].name }
  names : ∀ i (h : i < named.size), Names ctx content count names indices i named[i].name

/-- No names name nothing. -/
theorem namedBy_self {names indices : Nat} {functions : Array ExportedFunction}
    (unnamed : ∀ i (h : i < functions.size), functions[i].name = none) :
    NamedBy ctx content 0 names indices functions functions where
  size_eq := rfl
  kept _ _ _ := rfl
  names i h := ⟨fun _ hj => absurd hj (Nat.not_lt_zero _), fun _ => unnamed i h⟩

theorem namedBy_renamed {count names indices : Nat} {links : List (UInt32 × UInt16)}
    (hLinks : Links content count names indices links) {functions : Array ExportedFunction}
    (unnamed : ∀ i (h : i < functions.size), functions[i].name = none) :
    NamedBy ctx content count names indices functions
      (functions.mapIdx (renamed ctx content links)) where
  size_eq := Array.size_mapIdx
  kept i h h' := by
    rw [Array.getElem_mapIdx]
    rfl
  names i h := by
    rw [Array.size_mapIdx] at h
    simp only [Array.getElem_mapIdx, renamed, unnamed i h, Option.or_none]
    exact hLinks.names_lastLink i

end Export
end PortableExecutable
