import Mathlib.Data.Finset.Max
import Mathlib.Data.Nat.Count
import PortableExecutable.Proofs.Export.Reference

/-!
Looking exported functions up. Ordinals count the functions from the base on, modulo the number of
32-bit words, so each of them leads to the one function that it addresses. A name leads to its
function only if it is the last one that the tables have for it: a function keeps one name, and the
others that it goes by are found nowhere.
-/

namespace PortableExecutable

/-- Searching for the key of an item finds that item if no other one has the key. -/
theorem find?_key_eq_some {α β : Type} [BEq β] [LawfulBEq β] (key : α → β) {items : Array α}
    {i : Nat} (hi : i < items.size)
    (alone : ∀ j (hj : j < items.size), key items[j] = key items[i] → j = i) :
    items.find? (key · == key items[i]) = some items[i] := by
  rw [Array.find?_eq_some_iff_getElem]
  refine ⟨beq_self_eq_true _, i, hi, rfl, fun j hj => ?_⟩
  have other : key items[j] ≠ key items[i] := fun same =>
    absurd (alone j (Nat.lt_trans hj hi) same) (Nat.ne_of_lt hj)
  simpa using other

namespace ExportDirectory

variable {d : ExportDirectory}

theorem mem_names_iff {text : String} :
    text ∈ d.names ↔ ∃ i, ∃ h : i < d.functions.size, d.functions[i].name = some text := by
  simp only [names, List.mem_filterMap, Array.mem_toList_iff, Array.mem_iff_getElem]
  constructor
  · rintro ⟨_, ⟨i, hi, rfl⟩, hName⟩
    exact ⟨i, hi, hName⟩
  · rintro ⟨i, hi, hName⟩
    exact ⟨_, ⟨i, hi, rfl⟩, hName⟩

theorem byName?_eq_none_iff {text : String} : d.byName? text = none ↔ text ∉ d.names := by
  rw [byName?, Array.find?_eq_none, mem_names_iff]
  simp only [Array.mem_iff_getElem, beq_iff_eq]
  constructor
  · rintro other ⟨i, hi, hName⟩
    exact other _ ⟨i, hi, rfl⟩ hName
  · rintro absent _ ⟨i, hi, rfl⟩ hName
    exact absent ⟨i, hi, hName⟩

/-- The functions with a name are counted by their indices. -/
theorem namedCount_eq_card {named : Nat → Prop} [DecidablePred named]
    (same : ∀ i (h : i < d.functions.size), d.functions[i].name.isSome = true ↔ named i) :
    d.namedCount = ((Finset.range d.functions.size).filter named).card := by
  have hFlags : d.functions.toList.map (·.name.isSome) =
      (List.range d.functions.size).map (decide <| named ·) := by
    apply List.ext_getElem
    · simp
    · intro i hi _
      have hSize : i < d.functions.size := by simpa using hi
      simp only [List.getElem_map, Array.getElem_toList, List.getElem_range]
      exact Bool.eq_iff_iff.mpr ((same i hSize).trans decide_eq_true_iff.symm)
  have hCounts := congrArg (List.countP id) hFlags
  rw [List.countP_map, List.countP_map] at hCounts
  rw [← Nat.count_eq_card_filter_range, Nat.count]
  exact hCounts

/-- Every ordinal leads to the function that it counts to from the base. -/
structure CountsOrdinals (d : ExportDirectory) : Prop where
  size_eq : d.functions.size = d.numberOfFunctions.toNat
  byOrdinal?_eq : ∀ o : UInt32, d.byOrdinal? o = d.functions[(o - d.base).toNat]?
  injective : ∀ i (hi : i < d.functions.size) j (hj : j < d.functions.size),
    d.functions[i].ordinal = d.functions[j].ordinal → i = j

theorem countsOrdinals_of_ordinal_eq (hSize : d.functions.size = d.numberOfFunctions.toNat)
    (hOrdinal : ∀ i (h : i < d.functions.size),
      d.functions[i].ordinal.toNat = (d.base.toNat + i) % 2 ^ 32) : d.CountsOrdinals := by
  have hBound := d.numberOfFunctions.toNat_lt
  -- the distance of an ordinal from the base is the index of its function
  have hIndex (i : Nat) (h : i < d.functions.size) :
      (d.functions[i].ordinal - d.base).toNat = i := by
    have hBase := d.base.toNat_lt
    rw [UInt32.toNat_sub, hOrdinal i h]
    omega
  have injective : ∀ i (hi : i < d.functions.size) j (hj : j < d.functions.size),
      d.functions[i].ordinal = d.functions[j].ordinal → i = j := by
    intro i hi j hj same
    rw [← hIndex i hi, ← hIndex j hj, same]
  refine ⟨hSize, fun o => ?_, injective⟩
  by_cases counted : (o - d.base).toNat < d.functions.size
  case pos =>
    have hFound : d.functions[(o - d.base).toNat].ordinal = o := by
      have hDistance := UInt32.toNat_inj.mp (hIndex _ counted)
      rw [← UInt32.sub_add_cancel d.functions[(o - d.base).toNat].ordinal d.base, hDistance,
        UInt32.sub_add_cancel]
    rw [Array.getElem?_eq_getElem counted]
    have hSearch := find?_key_eq_some ExportedFunction.ordinal counted
      fun j hj same => injective j hj _ counted same
    rwa [hFound] at hSearch
  case neg =>
    rw [Array.getElem?_eq_none (Nat.le_of_not_lt counted), byOrdinal?, Array.find?_eq_none]
    intro f hMem
    obtain ⟨i, hi, rfl⟩ := Array.mem_iff_getElem.mp hMem
    intro same
    rw [beq_iff_eq] at same
    exact counted (by rw [← same, hIndex i hi]; exact hi)

end ExportDirectory

namespace Export

open Layout

variable {ctx : Context} {content : ByteArray} {d : ExportDirectory} {s : Session}

theorem Describes.words_eq {offset : Nat} (h : Describes ctx content offset d) :
    Words.ofDirectory d = wordsAt content offset := by
  obtain ⟨r, hRecord, hFields⟩ := h.record
  rw [← ofDirectory_ofRecord hRecord, hFields]
  rfl

/-- What is delivered has its tables in the file and says what they have there. -/
theorem exists_tells_of_delivered (inside : s.reader.Inside)
    (hRead : (read ctx).delivered? s = some (some d)) :
    let w := Words.ofDirectory d
    ∃ addresses names indices,
      Complete ctx s.reader.content (declaredBounds ctx) w addresses names indices ∧
        Tells ctx s.reader.content (declaredBounds ctx) w addresses names indices d := by
  intro w
  obtain ⟨s', hRun⟩ := Scan.delivered?_eq_some_iff.mp hRead
  obtain ⟨readable, d', hSome, describes⟩ :=
    Scan.Leads.ok (judges_read ctx ⟨rfl, rfl, rfl, inside⟩) hRun
  cases hSome
  obtain ⟨addresses, names, indices, complete⟩ := readable.complete
  have tells := describes.tells addresses names indices complete
  rw [← describes.words_eq] at complete tells
  exact ⟨addresses, names, indices, complete, tells⟩

theorem Tells.countsOrdinals {bounds : DataDirectory} {addresses names indices : Nat}
    (h : Tells ctx content bounds (Words.ofDirectory d) addresses names indices d) :
    d.CountsOrdinals :=
  d.countsOrdinals_of_ordinal_eq h.size_eq fun i hi => (h.located i hi).ordinal_eq

/-- Whatever the base is, an ordinal addresses the table of functions, and so does the index that
the tables of names have for a name, counted from the base. -/
theorem ordinals_address_functions (inside : s.reader.Inside)
    (hRead : (read ctx).delivered? s = some (some d)) :
    d.CountsOrdinals ∧ ∃ addresses names indices,
      Complete ctx s.reader.content (declaredBounds ctx) (Words.ofDirectory d) addresses names
          indices ∧
        ∀ j < d.numberOfNames.toNat, ∃ f,
          d.functions[entry16 s.reader.content indices j]? = some f ∧
            d.byOrdinal? (d.base + UInt32.ofNat (entry16 s.reader.content indices j)) =
              some f := by
  obtain ⟨addresses, names, indices, complete, tells⟩ := exists_tells_of_delivered inside hRead
  have counts := tells.countsOrdinals
  refine ⟨counts, addresses, names, indices, complete, fun j hj => ?_⟩
  have hIndex : entry16 s.reader.content indices j < d.functions.size := by
    rw [tells.size_eq]
    exact complete.nameTables.index_lt j hj
  have hFits : entry16 s.reader.content indices j < 2 ^ 32 :=
    Nat.lt_trans (counts.size_eq ▸ hIndex) d.numberOfFunctions.toNat_lt
  refine ⟨_, Array.getElem?_eq_getElem hIndex, ?_⟩
  rw [counts.byOrdinal?_eq, UInt32.add_comm, UInt32.add_sub_cancel, UInt32.toNat_ofNat_of_lt' hFits,
    Array.getElem?_eq_getElem hIndex]

/-- What the file with two functions tells. The base is the largest ordinal there is, and the second
function goes on from zero. -/
def wrapped : ExportDirectory where
  nameRva := 70
  base := 0xFFFFFFFF
  numberOfFunctions := 2
  numberOfNames := 3
  addressOfFunctions := 44
  addressOfNames := 52
  addressOfNameOrdinals := 64
  name := "m"
  functions := #[⟨200, 0xFFFFFFFF, some "b", none⟩, ⟨78, 0, some "c", some "x.y"⟩]

theorem ordinals_address_functions_wrapped :
    let ctx : Context := ⟨{ directories := [⟨4, 78⟩] }, {}⟩
    twoFunctions.reader.Inside ∧ (read ctx).delivered? twoFunctions = some (some wrapped) ∧
      wrapped.CountsOrdinals ∧
      (∃ addresses names indices,
        Complete ctx twoFunctions.reader.content (declaredBounds ctx) (Words.ofDirectory wrapped)
            addresses names indices ∧
          ∀ j < 3, ∃ f, wrapped.functions[entry16 twoFunctions.reader.content indices j]? = some f ∧
            wrapped.byOrdinal?
              (wrapped.base + UInt32.ofNat (entry16 twoFunctions.reader.content indices j)) =
                some f) ∧
      wrapped.byOrdinal? 0 = wrapped.functions[1]? ∧ wrapped.byOrdinal? 1 = none := by
  intro ctx
  have inside : twoFunctions.reader.Inside := ⟨by decide, by decide, fun _ => by decide⟩
  have hRead : (read ctx).delivered? twoFunctions = some (some wrapped) := by decide +kernel
  obtain ⟨counts, tables⟩ := ordinals_address_functions inside hRead
  exact ⟨inside, hRead, counts, tables, by decide, by decide⟩

section Names

variable (ctx content) (count names indices : Nat)

/-- No two names are spelled alike. -/
def SpelledApart : Prop :=
  ∀ j < count, ∀ k < count,
    ctx.textAt content (entry32 content names j) = ctx.textAt content (entry32 content names k) →
      j = k

/-- No later name is for the same function. -/
def IsLast (j : Nat) : Prop :=
  ∀ k < count, j < k → entry16 content indices k ≠ entry16 content indices j

/-- The names that lead back to their functions are the last ones of these. -/
structure FindsLastNames (bounds : DataDirectory) (base addresses : Nat) (d : ExportDirectory) :
    Prop where
  found : ∀ j < count, IsLast content count indices j → ∃ f,
    d.byName? (ctx.textAt content (entry32 content names j)) = some f ∧
      d.functions[entry16 content indices j]? = some f ∧
      Locates ctx content bounds base addresses (entry16 content indices j) f
  lost : ∀ j < count, ¬ IsLast content count indices j →
    d.byName? (ctx.textAt content (entry32 content names j)) = none
  mem_names_iff : ∀ j < count,
    ctx.textAt content (entry32 content names j) ∈ d.names ↔ IsLast content count indices j
  namedCount_eq : d.namedCount = ((Finset.range count).image (entry16 content indices)).card

end Names

variable {count names indices : Nat}

/-- Of the names for a function one is the last. -/
theorem exists_isLast (content : ByteArray) (indices : Nat) {j : Nat} (hj : j < count) :
    ∃ k < count, IsLast content count indices k ∧
      entry16 content indices k = entry16 content indices j := by
  have hMem : j ∈ (Finset.range count).filter
      (entry16 content indices · = entry16 content indices j) :=
    Finset.mem_filter.mpr ⟨Finset.mem_range.mpr hj, rfl⟩
  obtain ⟨k, hk, greatest⟩ := Finset.exists_max_image _ id ⟨j, hMem⟩
  simp only [Finset.mem_filter, Finset.mem_range, id] at hk greatest
  refine ⟨k, hk.1, fun l hl hkl same => ?_, hk.2⟩
  exact absurd (greatest l ⟨hl, same.trans hk.2⟩) (Nat.not_le_of_lt hkl)

theorem Names.name?_eq {i j : Nat} {name? : Option String}
    (h : Names ctx content count names indices i name?) (hj : j < count)
    (last : IsLast content count indices j) (hIndex : entry16 content indices j = i) :
    name? = some (ctx.textAt content (entry32 content names j)) :=
  h.last j hj hIndex fun k hk hjk => hIndex ▸ last k hk hjk

/-- A function goes by the last of the names that are for it. -/
theorem Names.exists_last {i : Nat} {name? : Option String} {text : String}
    (h : Names ctx content count names indices i name?) (hName : name? = some text) :
    ∃ j < count, IsLast content count indices j ∧ entry16 content indices j = i ∧
      ctx.textAt content (entry32 content names j) = text := by
  by_cases named : ∃ j < count, entry16 content indices j = i
  case pos =>
    obtain ⟨j, hj, hIndex⟩ := named
    obtain ⟨k, hk, last, same⟩ := exists_isLast content indices hj
    have hLast := h.name?_eq hk last (same.trans hIndex)
    exact ⟨k, hk, last, same.trans hIndex, Option.some.inj (hLast.symm.trans hName)⟩
  case neg =>
    have hNone := h.none fun j hj hIndex => named ⟨j, hj, hIndex⟩
    rw [hName] at hNone
    cases hNone

theorem Names.isSome_iff {i : Nat} {name? : Option String}
    (h : Names ctx content count names indices i name?) :
    name?.isSome = true ↔ ∃ j < count, entry16 content indices j = i := by
  rw [Option.isSome_iff_exists]
  constructor
  · rintro ⟨text, hName⟩
    obtain ⟨j, hj, -, hIndex, -⟩ := h.exists_last hName
    exact ⟨j, hj, hIndex⟩
  · rintro ⟨j, hj, hIndex⟩
    obtain ⟨k, hk, last, same⟩ := exists_isLast content indices hj
    exact ⟨_, h.name?_eq hk last (same.trans hIndex)⟩

namespace Tells

variable {bounds : DataDirectory} {w : Words} {addresses : Nat}

/-- With names spelled apart, a function that goes by one of them has it as its last. -/
theorem isLast_of_name_eq (h : Tells ctx content bounds w addresses names indices d)
    (apart : SpelledApart ctx content w.nameCount names) {i j : Nat} (hi : i < d.functions.size)
    (hj : j < w.nameCount)
    (hName : d.functions[i].name = some (ctx.textAt content (entry32 content names j))) :
    IsLast content w.nameCount indices j ∧ entry16 content indices j = i := by
  obtain ⟨k, hk, last, hIndex, same⟩ := (h.named i hi).exists_last hName
  cases apart k hk j hj same
  exact ⟨last, hIndex⟩

theorem findsLastNames (h : Tells ctx content bounds w addresses names indices d)
    (complete : Complete ctx content bounds w addresses names indices)
    (apart : SpelledApart ctx content w.nameCount names) :
    FindsLastNames ctx content w.nameCount names indices bounds w.base addresses d := by
  have hIndex (j : Nat) (hj : j < w.nameCount) :
      entry16 content indices j < d.functions.size := by
    rw [h.size_eq]
    exact complete.nameTables.index_lt j hj
  have mem_names_iff (j : Nat) (hj : j < w.nameCount) :
      ctx.textAt content (entry32 content names j) ∈ d.names ↔
        IsLast content w.nameCount indices j := by
    rw [ExportDirectory.mem_names_iff]
    constructor
    · rintro ⟨i, hi, hName⟩
      exact (h.isLast_of_name_eq apart hi hj hName).1
    · intro last
      exact ⟨_, hIndex j hj, (h.named _ _).name?_eq hj last rfl⟩
  refine ⟨fun j hj last => ?_, fun j hj notLast => ?_, mem_names_iff, ?_⟩
  · have hName := (h.named _ (hIndex j hj)).name?_eq hj last rfl
    refine ⟨_, ?_, Array.getElem?_eq_getElem (hIndex j hj), h.located _ (hIndex j hj)⟩
    have hSearch := find?_key_eq_some ExportedFunction.name (hIndex j hj)
      fun i hi same => (h.isLast_of_name_eq apart hi hj (same.trans hName)).2.symm
    rwa [hName] at hSearch
  · rw [ExportDirectory.byName?_eq_none_iff, mem_names_iff j hj]
    exact notLast
  · rw [ExportDirectory.namedCount_eq_card fun i hi => (h.named i hi).isSome_iff]
    congr 1
    ext i
    simp only [Finset.mem_filter, Finset.mem_range, Finset.mem_image]
    refine ⟨And.right, fun named => ⟨?_, named⟩⟩
    obtain ⟨j, hj, rfl⟩ := named
    exact hIndex j hj

end Tells

/-- Names that are spelled apart are found as long as they are the last ones of their functions, so
all of them where no function has two. -/
theorem names_found_unless_replaced (inside : s.reader.Inside)
    (hRead : (read ctx).delivered? s = some (some d)) :
    ∃ addresses names indices,
      Complete ctx s.reader.content (declaredBounds ctx) (Words.ofDirectory d) addresses names
          indices ∧
        (SpelledApart ctx s.reader.content d.numberOfNames.toNat names →
          FindsLastNames ctx s.reader.content d.numberOfNames.toNat names indices
              (declaredBounds ctx) d.base.toNat addresses d ∧
            (Set.InjOn (entry16 s.reader.content indices) (Set.Iio d.numberOfNames.toNat) →
              d.namedCount = d.numberOfNames.toNat ∧
                ∀ j < d.numberOfNames.toNat,
                  IsLast s.reader.content d.numberOfNames.toNat indices j)) := by
  obtain ⟨addresses, names, indices, complete, tells⟩ := exists_tells_of_delivered inside hRead
  refine ⟨addresses, names, indices, complete, fun apart => ?_⟩
  have finds := tells.findsLastNames complete apart
  refine ⟨finds, fun injective => ⟨?_, fun j hj k hk hjk same => ?_⟩⟩
  · rw [← Finset.coe_range] at injective
    exact finds.namedCount_eq.trans
      ((Finset.card_image_of_injOn injective).trans (Finset.card_range _))
  · exact absurd (injective hk hj same) (Nat.ne_of_gt hjk)

/-- One function with the names `a` and `b`. -/
def aliases : Session where
  reader :=
    { label := "memory"
      content := ⟨#[0, 0, 0, 0,
        0, 0, 0, 0, 0, 0, 0, 0, 0, 0, 0, 0, 60, 0, 0, 0, 1, 0, 0, 0,
        1, 0, 0, 0, 2, 0, 0, 0, 44, 0, 0, 0, 48, 0, 0, 0, 56, 0, 0, 0,
        200, 0, 0, 0, 62, 0, 0, 0, 64, 0, 0, 0, 0, 0, 0, 0,
        109, 0, 97, 0, 98, 0]⟩
      limits := {}
      position := 4 }

def aliased : ExportDirectory where
  nameRva := 60
  base := 1
  numberOfFunctions := 1
  numberOfNames := 2
  addressOfFunctions := 44
  addressOfNames := 48
  addressOfNameOrdinals := 56
  name := "m"
  functions := #[⟨200, 1, some "b", none⟩]

section Aliases

def aliasContext : Context := ⟨{ directories := [⟨4, 62⟩] }, {}⟩

theorem inside_aliases : aliases.reader.Inside := ⟨by decide, by decide, fun _ => by decide⟩

theorem delivered?_aliases :
    (read aliasContext).delivered? aliases = some (some aliased) := by
  decide +kernel

theorem spelledApart_aliases :
    SpelledApart aliasContext aliases.reader.content aliased.numberOfNames.toNat 48 := by
  have hApart : ∀ j < 2, ∀ k < 2,
      aliasContext.textAt aliases.reader.content (entry32 aliases.reader.content 48 j) =
          aliasContext.textAt aliases.reader.content (entry32 aliases.reader.content 48 k) →
        j = k := by decide +kernel
  exact hApart

/-- The tables of names lie where their addresses say. -/
theorem tables_aliases {addresses names indices : Nat}
    (h : Complete aliasContext aliases.reader.content (declaredBounds aliasContext)
      (Words.ofDirectory aliased) addresses names indices) : names = 48 ∧ indices = 56 :=
  h.nameTables.tables_eq (by decide) (by decide) (by decide)

theorem names_found_unless_replaced_aliases :
    aliases.reader.Inside ∧ (read aliasContext).delivered? aliases = some (some aliased) ∧
      SpelledApart aliasContext aliases.reader.content aliased.numberOfNames.toNat 48 ∧
      FindsLastNames aliasContext aliases.reader.content aliased.numberOfNames.toNat 48 56
        (declaredBounds aliasContext) aliased.base.toNat 44 aliased := by
  obtain ⟨addresses, names, indices, complete, finds⟩ :=
    names_found_unless_replaced inside_aliases delivered?_aliases
  obtain ⟨rfl, rfl⟩ := tables_aliases complete
  have hAddresses : addresses = 44 :=
    complete.addressTable.table_eq (by decide) (by decide)
  cases hAddresses
  exact ⟨inside_aliases, delivered?_aliases, spelledApart_aliases, (finds spelledApart_aliases).1⟩

/-- The first of two names for a function leads nowhere, though the file has both. -/
theorem name_lost_to_later_name :
    aliased.byName? "a" = none ∧ (aliased.byName? "b").isSome = true ∧ aliased.namedCount = 1 ∧
      ¬ ∀ (ctx : Context) (s : Session) (d : ExportDirectory), s.reader.Inside →
        (read ctx).delivered? s = some (some d) → ∀ addresses names indices,
          Complete ctx s.reader.content (declaredBounds ctx) (Words.ofDirectory d) addresses names
              indices →
            SpelledApart ctx s.reader.content d.numberOfNames.toNat names →
              ∀ j < d.numberOfNames.toNat, ∃ f,
                d.byName? (ctx.textAt s.reader.content (entry32 s.reader.content names j)) =
                  some f := by
  have hLost : aliased.byName? "a" = none := by decide
  refine ⟨hLost, by decide, by decide, fun found => ?_⟩
  obtain ⟨addresses, names, indices, complete, -⟩ :=
    exists_tells_of_delivered inside_aliases delivered?_aliases
  obtain ⟨rfl, rfl⟩ := tables_aliases complete
  obtain ⟨f, hFound⟩ := found _ _ _ inside_aliases delivered?_aliases _ _ _ complete
    spelledApart_aliases 0 (by decide)
  have hFirst : aliasContext.textAt aliases.reader.content
      (entry32 aliases.reader.content 48 0) = "a" := by decide +kernel
  rw [hFirst, hLost] at hFound
  cases hFound

end Aliases

end Export
end PortableExecutable
