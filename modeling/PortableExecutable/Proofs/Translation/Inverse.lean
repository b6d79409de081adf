import Mathlib.Data.List.Pairwise
import Mathlib.Order.CompletePartialOrder
import Mathlib.Order.Interval.Set.Disjoint
import PortableExecutable.Proofs.Translation.Exactness

/-!
Translation forth and back. Where the ranges of the sections are apart, in memory and in the file,
at most one section holds an address or a place. The first match of either search is then the
only one, in whatever order the sections stand, and each direction undoes the other.
-/

namespace PortableExecutable
namespace Section

/-- The addresses that the section has by either of its sizes. -/
def memory (s : Section) : Set Nat :=
  Set.Ico s.virtualAddress.toNat
    (s.virtualAddress.toNat + max s.virtualSize.toNat s.sizeOfRawData.toNat)

/-- The places of the file that back the section. -/
def stored (s : Section) : Set Nat :=
  Set.Ico s.pointerToRawData.toNat (s.pointerToRawData.toNat + s.sizeOfRawData.toNat)

variable {s : Section} {rva o : Nat}

theorem mem_memory_iff :
    rva ∈ s.memory ↔ s.Spans s.virtualSize rva ∨ s.Spans s.sizeOfRawData rva := by
  simp only [memory, Set.mem_Ico, Spans]
  omega

theorem coversOffset_iff : s.coversOffset o = true ↔ o ∈ s.stored := by
  rw [coversOffset, Bool.and_eq_true, decide_eq_true_eq, decide_eq_true_eq, stored, Set.mem_Ico]

/-- The place of an address in the raw range is backed by the file. -/
theorem placeOf_mem_stored (h : s.Spans s.sizeOfRawData rva) : s.placeOf rva ∈ s.stored := by
  simp only [Spans] at h
  simp only [placeOf, stored, Set.mem_Ico]
  omega

end Section

/-- Of sets that are pairwise disjoint, one alone has an element. -/
theorem eq_of_pairwise_disjoint {α : Type} {f : α → Set Nat} {items : List α} {a b : α} {n : Nat}
    (apart : items.Pairwise fun a b => Disjoint (f a) (f b)) (ha : a ∈ items) (hb : b ∈ items)
    (hna : n ∈ f a) (hnb : n ∈ f b) : a = b := by
  have : Std.Symm fun a b => Disjoint (f a) (f b) := ⟨fun _ _ disjoint => disjoint.symm⟩
  by_contra different
  exact Set.disjoint_left.mp (apart.forall ha hb different) hna hnb

namespace SectionTable

/-- The ranges of the sections are apart, in memory and in the file, and end within 32 bits. -/
structure Separated (t : SectionTable) : Prop where
  memory_disjoint : t.sections.Pairwise fun s u => Disjoint s.memory u.memory
  stored_disjoint : t.sections.Pairwise fun s u => Disjoint s.stored u.stored
  memory_end_le : ∀ s ∈ t.sections,
    s.virtualAddress.toNat + max s.virtualSize.toNat s.sizeOfRawData.toNat ≤ 2 ^ 32
  stored_end_le : ∀ s ∈ t.sections,
    s.pointerToRawData.toNat + s.sizeOfRawData.toNat ≤ 2 ^ 32

variable {t : SectionTable} {s : Section} {rva o : Nat} {r : UInt32}

/-- The section that maps an address has it in memory. -/
theorem Maps.mem_memory (h : t.Maps rva s) : s ∈ t.sections ∧ rva ∈ s.memory := by
  rw [Section.mem_memory_iff]
  cases h with
  | inl first => exact ⟨first.mem, .inl first.holds⟩
  | inr fallback => exact ⟨fallback.2.mem, .inr fallback.2.holds⟩

theorem exists_maps (hs : s ∈ t.sections) (hrva : rva ∈ s.memory) : ∃ u, t.Maps rva u := by
  cases hMapping : t.mapping? rva with
  | some u => exact ⟨u, mapping?_eq_some_iff.mp hMapping⟩
  | none =>
      rw [mapping?, Option.or_eq_none_iff, containing?, List.find?_eq_none,
        List.find?_eq_none] at hMapping
      cases Section.mem_memory_iff.mp hrva with
      | inl spans => exact absurd (Section.coversRva_virtual.mpr spans) (hMapping.1 s hs)
      | inr spans => exact absurd (Section.coversRva_raw.mpr spans) (hMapping.2 s hs)

theorem rvaOfOffset?_eq_some_iff : t.rvaOfOffset? o = some r ↔
    ∃ s, FirstWith (fun u => o ∈ u.stored) t.sections s ∧
      UInt32.ofNat (s.virtualAddress.toNat + (o - s.pointerToRawData.toNat)) = r := by
  simp only [rvaOfOffset?, Option.map_eq_some_iff,
    find?_eq_some_iff_firstWith fun _ => Section.coversOffset_iff]

namespace Separated

/-- Only the section that has an address in memory can map it. -/
theorem maps (h : t.Separated) (hs : s ∈ t.sections) (hrva : rva ∈ s.memory) : t.Maps rva s := by
  obtain ⟨u, hMaps⟩ := exists_maps hs hrva
  obtain ⟨hu, hMemory⟩ := hMaps.mem_memory
  rwa [eq_of_pairwise_disjoint h.memory_disjoint hs hu hrva hMemory]

/-- Only the section that is stored around a place can give it an address. -/
theorem rvaOfOffset?_eq (h : t.Separated) (hs : s ∈ t.sections) (ho : o ∈ s.stored) :
    t.rvaOfOffset? o =
      some (UInt32.ofNat (s.virtualAddress.toNat + (o - s.pointerToRawData.toNat))) := by
  cases hFind : t.sections.find? (·.coversOffset o) with
  | none => exact absurd (Section.coversOffset_iff.mpr ho) (List.find?_eq_none.mp hFind s hs)
  | some u =>
      have first := (find?_eq_some_iff_firstWith fun _ => Section.coversOffset_iff).mp hFind
      rw [rvaOfOffset?, hFind, Option.map_some,
        eq_of_pairwise_disjoint h.stored_disjoint hs first.mem ho first.holds]

/-- A place of the file lies at an address that leads back to it. -/
theorem leadsTo_of_stored (h : t.Separated) (hs : s ∈ t.sections) (ho : o ∈ s.stored)
    (positive : 0 < o) :
    s.virtualAddress.toNat + (o - s.pointerToRawData.toNat) < 2 ^ 32 ∧
      t.LeadsTo (s.virtualAddress.toNat + (o - s.pointerToRawData.toNat)) o := by
  have hEnd := h.memory_end_le s hs
  have hStored := Set.mem_Ico.mp ho
  have hMemory : s.virtualAddress.toNat + (o - s.pointerToRawData.toNat) ∈ s.memory :=
    Set.mem_Ico.mpr ⟨by omega, by omega⟩
  have hPlace : o = s.placeOf (s.virtualAddress.toNat + (o - s.pointerToRawData.toNat)) := by
    rw [Section.placeOf]
    omega
  exact ⟨by omega, s, h.maps hs hMemory, hPlace, positive⟩

end Separated

/-- Each direction of translation undoes the other. -/
structure Invertible (t : SectionTable) : Prop where
  offset_of_rva_of_offset : ∀ (o : Nat) (r : UInt32), 0 < o → t.rvaOfOffset? o = some r →
    ∃ o' : UInt32, o'.toNat = o ∧ t.offsetOfRva? r.toNat = some o'
  rva_of_offset_of_rva : ∀ s ∈ t.sections, ∀ rva : Nat, s.virtualAddress.toNat ≤ rva →
    rva < s.virtualAddress.toNat + s.sizeOfRawData.toNat →
      ∀ o : UInt32, t.offsetOfRva? rva = some o →
        ∃ r : UInt32, r.toNat = rva ∧ t.rvaOfOffset? o.toNat = some r

theorem Separated.offsetOfRva?_of_rvaOfOffset? (h : t.Separated) (positive : 0 < o)
    (hRva : t.rvaOfOffset? o = some r) :
    ∃ o' : UInt32, o'.toNat = o ∧ t.offsetOfRva? r.toNat = some o' := by
  obtain ⟨s, first, rfl⟩ := rvaOfOffset?_eq_some_iff.mp hRva
  obtain ⟨hLt, hLeads⟩ := h.leadsTo_of_stored first.mem first.holds positive
  have hPlace : o < 2 ^ 32 := Nat.lt_of_lt_of_le first.holds.2 (h.stored_end_le s first.mem)
  have hLow : (UInt32.ofNat o).toNat = o := UInt32.toNat_ofNat_of_lt' hPlace
  refine ⟨UInt32.ofNat o, hLow, ?_⟩
  rw [UInt32.toNat_ofNat_of_lt' hLt, offsetOfRva?_eq_some_iff (List.ne_nil_of_mem first.mem)]
  exact ⟨o, hLeads, by rw [hLow, Nat.mod_eq_of_lt hPlace], by rwa [hLow]⟩

theorem Separated.rvaOfOffset?_of_offsetOfRva? (h : t.Separated) (hs : s ∈ t.sections)
    (spans : s.Spans s.sizeOfRawData rva) {o : UInt32} (hOffset : t.offsetOfRva? rva = some o) :
    ∃ r : UInt32, r.toNat = rva ∧ t.rvaOfOffset? o.toNat = some r := by
  obtain ⟨place, ⟨u, hMaps, rfl, _⟩, hLow, _⟩ :=
    (offsetOfRva?_eq_some_iff (List.ne_nil_of_mem hs)).mp hOffset
  obtain rfl := hMaps.unique (h.maps hs (Section.mem_memory_iff.mpr (.inr spans)))
  have hStored := Section.placeOf_mem_stored spans
  have hPlace : u.placeOf rva < 2 ^ 32 := Nat.lt_of_lt_of_le hStored.2 (h.stored_end_le u hs)
  have hEnd := h.memory_end_le u hs
  have hStart := spans.1
  have hStop := spans.2
  have hBack : u.virtualAddress.toNat + (u.placeOf rva - u.pointerToRawData.toNat) = rva := by
    rw [Section.placeOf]
    omega
  have hLt : rva < 2 ^ 32 := by omega
  refine ⟨UInt32.ofNat rva, UInt32.toNat_ofNat_of_lt' hLt, ?_⟩
  rw [hLow, Nat.mod_eq_of_lt hPlace, h.rvaOfOffset?_eq hs hStored, hBack]

/-- Whatever the order of the sections is, and whichever of their sizes is the larger one. -/
theorem translations_invert_each_other (t : SectionTable) (h : t.Separated) : t.Invertible where
  offset_of_rva_of_offset _ _ positive := h.offsetOfRva?_of_rvaOfOffset? positive
  rva_of_offset_of_rva _ hs _ start stop _ := h.rvaOfOffset?_of_offsetOfRva? hs ⟨start, stop⟩

/-- Two sections in falling order: one with more data than memory that ends with the last 32-bit
place, and one with more memory than data. -/
def falling : SectionTable where
  sections :=
    [{ virtualAddress := 0xFFFFF000, virtualSize := 0x200, sizeOfRawData := 0x1000,
       pointerToRawData := 0xFFFFF000 },
     { virtualAddress := 0x1000, virtualSize := 0x3000, sizeOfRawData := 0x600,
       pointerToRawData := 0x400 }]

theorem separated_falling : falling.Separated where
  memory_disjoint := by
    simp [falling, Section.memory, Set.Ico_disjoint_Ico]
  stored_disjoint := by
    simp [falling, Section.stored, Set.Ico_disjoint_Ico]
  memory_end_le := by decide
  stored_end_le := by decide

theorem translations_invert_each_other_falling :
    falling.Separated ∧ falling.Invertible ∧
      falling.rvaOfOffset? 0x900 = some 0x1500 ∧ falling.offsetOfRva? 0x1500 = some 0x900 ∧
        falling.offsetOfRva? 0xFFFFFFFF = some 0xFFFFFFFF :=
  ⟨separated_falling, translations_invert_each_other falling separated_falling, by decide,
    by decide, by decide⟩

end SectionTable
end PortableExecutable
