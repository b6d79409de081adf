import Mathlib.Algebra.Group.Nat.Defs
import PortableExecutable.Section.Table

/-!
Where an address leads. The section that maps it is the first in table order whose virtual range
holds it, or, where there is none, the first whose raw range does; the place in the file follows
from that section alone. Translation gives that place as long as it fits 32 bits. Of a place past
them it gives the lowest 32 bits, so that an address that no file of that size backs is taken for
one near the start of the file.
-/

namespace PortableExecutable

/-- The first item of a list that has a property. -/
def FirstWith {α : Type} (p : α → Prop) (items : List α) (a : α) : Prop :=
  ∃ before after, items = before ++ a :: after ∧ p a ∧ ∀ b ∈ before, ¬ p b

theorem find?_eq_some_iff_firstWith {α : Type} {p : α → Bool} {q : α → Prop}
    (same : ∀ a, p a = true ↔ q a) {items : List α} {a : α} :
    items.find? p = some a ↔ FirstWith q items a := by
  rw [List.find?_eq_some_iff_append, FirstWith]
  constructor
  · rintro ⟨holds, before, after, hItems, earlier⟩
    refine ⟨before, after, hItems, (same a).mp holds, fun b hb hq => ?_⟩
    simpa [(same b).mpr hq] using earlier b hb
  · rintro ⟨before, after, hItems, holds, earlier⟩
    refine ⟨(same a).mpr holds, before, after, hItems, fun b hb => ?_⟩
    simpa using mt (same b).mp (earlier b hb)

theorem FirstWith.mem {α : Type} {p : α → Prop} {items : List α} {a : α}
    (h : FirstWith p items a) : a ∈ items := by
  obtain ⟨before, after, rfl, _⟩ := h
  simp

theorem FirstWith.holds {α : Type} {p : α → Prop} {items : List α} {a : α}
    (h : FirstWith p items a) : p a := by
  obtain ⟨_, _, _, holds, _⟩ := h
  exact holds

namespace Section

/-- The address lies in the range of the given size that begins where the section does. -/
def Spans (s : Section) (size : UInt32) (rva : Nat) : Prop :=
  s.virtualAddress.toNat ≤ rva ∧ rva < s.virtualAddress.toNat + size.toNat

/-- The place in the file where the section has an address, however large it is. -/
def placeOf (s : Section) (rva : Nat) : Nat :=
  rva - s.virtualAddress.toNat + s.pointerToRawData.toNat

theorem coversRva_virtual {s : Section} {rva : Nat} :
    s.coversRva .virtual rva = true ↔ s.Spans s.virtualSize rva := by
  rw [coversRva, Bool.and_eq_true, decide_eq_true_eq, decide_eq_true_eq]
  rfl

theorem coversRva_raw {s : Section} {rva : Nat} :
    s.coversRva .raw rva = true ↔ s.Spans s.sizeOfRawData rva := by
  rw [coversRva, Bool.and_eq_true, decide_eq_true_eq, decide_eq_true_eq]
  rfl

end Section

namespace SectionTable

variable {t : SectionTable} {rva : Nat} {s : Section} {o : UInt32}

/-- The section that maps an address: the first one whose virtual range holds it, or, where there
is none, the first one whose raw range does. -/
def Maps (t : SectionTable) (rva : Nat) (s : Section) : Prop :=
  FirstWith (fun u => u.Spans u.virtualSize rva) t.sections s ∨
    (∀ u ∈ t.sections, ¬ u.Spans u.virtualSize rva) ∧
      FirstWith (fun u => u.Spans u.sizeOfRawData rva) t.sections s

/-- The exact place of an address. Place 0 is none. -/
def LeadsTo (t : SectionTable) (rva place : Nat) : Prop :=
  ∃ s, t.Maps rva s ∧ place = s.placeOf rva ∧ 0 < place

theorem mapping?_eq_some_iff : t.mapping? rva = some s ↔ t.Maps rva s := by
  rw [mapping?, Option.or_eq_some_iff, containing?, List.find?_eq_none,
    find?_eq_some_iff_firstWith fun _ => Section.coversRva_virtual,
    find?_eq_some_iff_firstWith fun _ => Section.coversRva_raw, Maps]
  simp only [Section.coversRva_virtual]

theorem Maps.unique {s' : Section} (h : t.Maps rva s) (h' : t.Maps rva s') : s = s' := by
  rw [← mapping?_eq_some_iff] at h h'
  exact Option.some.inj (h.symm.trans h')

/-- With sections, the place is that of the section that maps the address, cut to 32 bits. -/
theorem offsetOfRva?_eq (nonempty : t.sections ≠ []) :
    t.offsetOfRva? rva =
      ((t.mapping? rva).map fun s => UInt32.ofNat (s.placeOf rva)).filter (· ≠ 0) := by
  have hSome : ¬ t.sections.isEmpty = true := by simpa using nonempty
  rw [offsetOfRva?, locate, if_neg hSome]
  split
  case h_1 hMapping => simp [hMapping, Except.toOption]
  case h_2 s hMapping =>
    dsimp only [deduct]
    rw [hMapping, Option.map_some, Section.placeOf]
    split
    case isTrue zero =>
      rw [Option.filter_some_neg (by simpa using zero)]
      rfl
    case isFalse place =>
      rw [Option.filter_some_pos (by simpa using place)]
      rfl

theorem offsetOfRva?_eq_some_iff (nonempty : t.sections ≠ []) :
    t.offsetOfRva? rva = some o ↔
      ∃ place, t.LeadsTo rva place ∧ o.toNat = place % 2 ^ 32 ∧ 0 < o.toNat := by
  have hPos : o ≠ 0 ↔ 0 < o.toNat := by
    rw [Nat.pos_iff_ne_zero, ne_eq, ne_eq, ← UInt32.toNat_inj]
    rfl
  rw [offsetOfRva?_eq nonempty, Option.filter_eq_some_iff, Option.map_eq_some_iff]
  simp only [mapping?_eq_some_iff, decide_eq_true_eq, hPos]
  constructor
  · rintro ⟨⟨s, hMaps, rfl⟩, positive⟩
    have hLow : (UInt32.ofNat (s.placeOf rva)).toNat = s.placeOf rva % 2 ^ 32 :=
      UInt32.toNat_ofNat'
    refine ⟨_, ⟨s, hMaps, rfl, ?_⟩, hLow, positive⟩
    rw [hLow] at positive
    exact Nat.pos_of_ne_zero fun h => by simp [h] at positive
  · rintro ⟨place, ⟨s, hMaps, rfl, _⟩, hLow, positive⟩
    refine ⟨⟨s, hMaps, ?_⟩, positive⟩
    rw [← UInt32.toNat_inj, hLow, UInt32.toNat_ofNat']

/-- An address whose exact place fits 32 bits leads there. -/
theorem offsetOfRva?_eq_some_iff_of_lt (nonempty : t.sections ≠ [])
    (fits : ∀ place, t.LeadsTo rva place → place < 2 ^ 32) :
    t.offsetOfRva? rva = some o ↔ t.LeadsTo rva o.toNat := by
  rw [offsetOfRva?_eq_some_iff nonempty]
  constructor
  · rintro ⟨place, hLeads, hLow, _⟩
    rwa [hLow, Nat.mod_eq_of_lt (fits place hLeads)]
  · intro hLeads
    have positive : 0 < o.toNat := by
      obtain ⟨_, _, _, positive⟩ := hLeads
      exact positive
    exact ⟨_, hLeads, (Nat.mod_eq_of_lt o.toNat_lt).symm, positive⟩

theorem offsetOfVa?_eq_some_iff {va imageBase : Nat} :
    t.offsetOfVa? va imageBase = some o ↔
      imageBase < va ∧ t.offsetOfRva? (va - imageBase) = some o := by
  rw [offsetOfVa?]
  split
  case isTrue above => simp [above]
  case isFalse below => simp [below]

/-- What translation makes of exact places: it keeps those that fit 32 bits, cuts the others to
their lowest 32 bits, and finds nothing where there is no place. -/
structure KeepsLowBits (t : SectionTable) : Prop where
  rva_iff : ∀ (rva : Nat) (o : UInt32), t.offsetOfRva? rva = some o ↔
    ∃ place, t.LeadsTo rva place ∧ o.toNat = place % 2 ^ 32 ∧ 0 < o.toNat
  va_iff : ∀ (va imageBase : Nat) (o : UInt32), t.offsetOfVa? va imageBase = some o ↔
    imageBase < va ∧
      ∃ place, t.LeadsTo (va - imageBase) place ∧ o.toNat = place % 2 ^ 32 ∧ 0 < o.toNat
  rva_exact : ∀ (rva : Nat), (∀ place, t.LeadsTo rva place → place < 2 ^ 32) →
    ∀ o : UInt32, t.offsetOfRva? rva = some o ↔ t.LeadsTo rva o.toNat
  va_exact : ∀ (va imageBase : Nat),
    (∀ place, t.LeadsTo (va - imageBase) place → place < 2 ^ 32) →
      ∀ o : UInt32, t.offsetOfVa? va imageBase = some o ↔
        imageBase < va ∧ t.LeadsTo (va - imageBase) o.toNat

/-- Whatever the sections are and however they overlap. -/
theorem translation_keeps_low_bits (t : SectionTable) (nonempty : t.sections ≠ []) :
    t.KeepsLowBits where
  rva_iff rva o := offsetOfRva?_eq_some_iff nonempty
  va_iff va imageBase o := by rw [offsetOfVa?_eq_some_iff, offsetOfRva?_eq_some_iff nonempty]
  rva_exact rva fits o := offsetOfRva?_eq_some_iff_of_lt nonempty fits
  va_exact va imageBase fits o := by
    rw [offsetOfVa?_eq_some_iff, offsetOfRva?_eq_some_iff_of_lt nonempty fits]

/-- A section whose raw data would begin just below the last 32-bit place. -/
def atLastPlace : SectionTable where
  sections := [{ virtualAddress := 0x1000, virtualSize := 0x1000, pointerToRawData := 0xFFFFFF00 }]

theorem translation_keeps_low_bits_atLastPlace :
    atLastPlace.sections ≠ [] ∧ atLastPlace.KeepsLowBits ∧
      atLastPlace.offsetOfRva? 0x10FF = some 0xFFFFFFFF ∧ atLastPlace.offsetOfRva? 0x1100 = none :=
  ⟨by decide, translation_keeps_low_bits atLastPlace (by decide), by decide, by decide⟩

/-- Not every translated address leads to the place that it is given: this one is taken for the
place 256, and its exact place is `2 ^ 32` bytes further on. -/
theorem translation_aliases_past_last_place :
    ¬ ∀ t : SectionTable, t.sections ≠ [] → ∀ (rva : Nat) (o : UInt32),
      t.offsetOfRva? rva = some o ↔ t.LeadsTo rva o.toNat := by
  intro exact
  have hFound : atLastPlace.offsetOfRva? 0x1200 = some 0x100 := by decide
  obtain ⟨s, hMaps, hPlace, _⟩ := (exact atLastPlace (by decide) 0x1200 0x100).mp hFound
  have hMapping : atLastPlace.mapping? 0x1200 = atLastPlace.sections.head? := by decide
  rw [mapping?_eq_some_iff.mpr hMaps] at hMapping
  obtain rfl := Option.some.inj hMapping
  revert hPlace
  decide

end SectionTable
end PortableExecutable
