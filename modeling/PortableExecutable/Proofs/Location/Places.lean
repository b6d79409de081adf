import PortableExecutable.Proofs.Location
import PortableExecutable.Proofs.Translation.Exactness

/-!
Which place an address stands for. An image without sections takes an address for a place; otherwise
the sections say where it leads. Of either the lowest 32 bits count, and place 0 is none. There is
at most one place for an address.
-/

namespace PortableExecutable

/-- What translation makes of an address: the lowest 32 bits of the place that the sections give it,
or of the address itself in an image without sections. -/
inductive SectionTable.TranslatesTo (t : SectionTable) (rva : Nat) : Nat → Prop
  | identity : t.sections = [] → t.TranslatesTo rva (rva % 2 ^ 32)
  | mapped {place : Nat} : t.sections ≠ [] → t.LeadsTo rva place →
      t.TranslatesTo rva (place % 2 ^ 32)

namespace SectionTable

variable {t : SectionTable} {rva place : Nat} {o : UInt32}

theorem offsetOfRva?_of_isEmpty (empty : t.sections = []) :
    t.offsetOfRva? rva = some (UInt32.ofNat rva) := by
  rw [offsetOfRva?, locate, empty]
  rfl

theorem translatesTo_of_offsetOfRva? (h : t.offsetOfRva? rva = some o) :
    t.TranslatesTo rva o.toNat := by
  by_cases empty : t.sections = []
  case pos =>
    obtain rfl := Option.some.inj ((offsetOfRva?_of_isEmpty empty).symm.trans h)
    rw [UInt32.toNat_ofNat']
    exact .identity empty
  case neg =>
    obtain ⟨exactPlace, leads, hLow, _⟩ := (offsetOfRva?_eq_some_iff empty).mp h
    rw [hLow]
    exact .mapped empty leads

theorem TranslatesTo.offsetOfRva? (h : t.TranslatesTo rva place) (positive : 0 < place) :
    ∃ o, t.offsetOfRva? rva = some o ∧ o.toNat = place := by
  cases h with
  | identity empty => exact ⟨_, offsetOfRva?_of_isEmpty empty, UInt32.toNat_ofNat'⟩
  | @mapped exactPlace nonempty leads =>
      have hLow : (UInt32.ofNat exactPlace).toNat = exactPlace % 2 ^ 32 := UInt32.toNat_ofNat'
      exact ⟨_, (offsetOfRva?_eq_some_iff nonempty).mpr
        ⟨exactPlace, leads, hLow, hLow.symm ▸ positive⟩, hLow⟩

end SectionTable

namespace Context

variable {ctx : Context} {rva va place : Nat}

/-- The place at which an address is looked up. Place 0 is none. -/
def PutsAt (ctx : Context) (rva place : Nat) : Prop :=
  0 < place ∧ ctx.headers.sections.TranslatesTo rva place

theorem placeOf?_eq_some_iff : ctx.placeOf? rva = some place ↔ ctx.PutsAt rva place := by
  have hPos (o : UInt32) : (o != 0) = true ↔ 0 < o.toNat := by
    rw [bne_iff_ne, Nat.pos_iff_ne_zero, ne_eq, ne_eq, ← UInt32.toNat_inj]
    rfl
  rw [placeOf?, valid, Option.map_eq_some_iff]
  simp only [Option.filter_eq_some_iff, hPos]
  constructor
  · rintro ⟨o, ⟨hOffset, positive⟩, rfl⟩
    exact ⟨positive, SectionTable.translatesTo_of_offsetOfRva? hOffset⟩
  · rintro ⟨positive, translates⟩
    obtain ⟨o, hOffset, rfl⟩ := translates.offsetOfRva? positive
    exact ⟨o, ⟨hOffset, positive⟩, rfl⟩

theorem PutsAt.unique {place' : Nat} (h : ctx.PutsAt rva place) (h' : ctx.PutsAt rva place') :
    place = place' := by
  rw [← placeOf?_eq_some_iff] at h h'
  exact Option.some.inj (h.symm.trans h')

/-- The place at which an absolute address is looked up: one above the image base. -/
def PutsVaAt (ctx : Context) (va place : Nat) : Prop :=
  ctx.headers.imageBase.toNat < va ∧ ctx.PutsAt (va - ctx.headers.imageBase.toNat) place

theorem PutsVaAt.unique {place' : Nat} (h : ctx.PutsVaAt va place) (h' : ctx.PutsVaAt va place') :
    place = place' :=
  h.2.unique h'.2

theorem placeOfVa?_eq_some_iff : ctx.placeOfVa? va = some place ↔ ctx.PutsVaAt va place := by
  rw [placeOfVa?, PutsVaAt, ← placeOf?_eq_some_iff]
  split
  case isTrue above => simp [above]
  case isFalse below => simp [below]

end Context
end PortableExecutable
