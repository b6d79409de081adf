import Mathlib.Algebra.BigOperators.Group.List.Basic
import Mathlib.Algebra.GroupWithZero.Nat
import Mathlib.Data.Nat.Find
import PortableExecutable.Import
import PortableExecutable.Proofs.Judgement

/-!
What an import directory is in a file: records of five words, closed by a record of zeros, and
behind each record that has a name a table of thunks, closed by a zero. What the records and the
thunks stand for is a function of the bytes alone. What the file has of the name of a function is
taken as it is; everything else has to be there.
-/

namespace PortableExecutable
namespace Import

open Layout

section Thunks

variable (content : ByteArray) (width table : Nat)

def thunkAt (i : Nat) : Nat := number content (table + i * width) width

/-- The word is in the file and stands for a function. -/
def NamesFunction (i : Nat) : Prop :=
  table + (i + 1) * width ≤ content.size ∧ thunkAt content width table i ≠ 0

instance (i : Nat) : Decidable (NamesFunction content width table i) :=
  inferInstanceAs (Decidable (_ ∧ _))

def thunkCount : Nat :=
  Nat.findGreatest (fun n => ∀ i < n, NamesFunction content width table i) content.size

/-- The table has so many thunks: the first zero is the word behind them, and it is in the file. -/
structure ThunksClose (count : Nat) : Prop where
  inside : table + (count + 1) * width ≤ content.size
  zero : thunkAt content width table count = 0
  filled : ∀ i < count, thunkAt content width table i ≠ 0

end Thunks

section Counting

variable {content : ByteArray} {width table n count : Nat}

theorem namesFunction_of_lt_thunkCount {i : Nat} (h : i < thunkCount content width table) :
    NamesFunction content width table i :=
  Nat.findGreatest_spec (P := fun n => ∀ i < n, NamesFunction content width table i)
    (Nat.zero_le content.size) (fun i hi => absurd hi (Nat.not_lt_zero i)) i h

theorem le_thunkCount (positive : 0 < width)
    (h : ∀ i < n, NamesFunction content width table i) : n ≤ thunkCount content width table := by
  refine Nat.le_findGreatest ?_ h
  cases n with
  | zero => exact Nat.zero_le _
  | succ n =>
      have inside := (h n (Nat.lt_succ_self n)).1
      have hWidth : n + 1 ≤ (n + 1) * width := Nat.le_mul_of_pos_right _ positive
      omega

theorem ThunksClose.namesFunction (h : ThunksClose content width table count) {i : Nat}
    (hi : i < count) : NamesFunction content width table i := by
  have hEnd : (i + 1) * width ≤ (count + 1) * width := Nat.mul_le_mul_right _ (by omega)
  have inside := h.inside
  exact ⟨by omega, h.filled i hi⟩

theorem ThunksClose.le_count (h : ThunksClose content width table count)
    (filled : ∀ i < n, NamesFunction content width table i) : n ≤ count :=
  Nat.le_of_not_lt fun behind => (filled count behind).2 h.zero

theorem ThunksClose.count_eq (h : ThunksClose content width table count) (positive : 0 < width) :
    thunkCount content width table = count :=
  Nat.le_antisymm (h.le_count fun _ => namesFunction_of_lt_thunkCount)
    (le_thunkCount positive fun _ => h.namesFunction)

end Counting

structure Words where
  lookupTable : Nat
  timeDateStamp : Nat
  forwarderChain : Nat
  nameRva : Nat
  addressTable : Nat

def wordsAt (content : ByteArray) (place : Nat) : Words where
  lookupTable := number content (place + 0) 4
  timeDateStamp := number content (place + 4) 4
  forwarderChain := number content (place + 8) 4
  nameRva := number content (place + 12) 4
  addressTable := number content (place + 16) 4

/-- The address of the thunks. Without a table of their own they are in the address table. -/
def Words.thunkRva (w : Words) : Nat :=
  if w.lookupTable = 0 then w.addressTable else w.lookupTable

section Meaning

variable (ctx : Context) (content : ByteArray)

def hintAt? (rva : Nat) : Option UInt16 :=
  (ctx.placeOf? rva).bind fun place =>
    if place + 2 ≤ content.size then some (UInt16.ofNat (number content place 2)) else none

def nameAt? (rva : Nat) : Option String :=
  (ctx.placeOf? rva).bind fun place =>
    if place + 2 < content.size then some (text content (place + 2) ctx.maxStringLength) else none

/-- The absolute address of the slot that the loader fills for a thunk, modulo 64 bits. -/
def slotAddressAt (addressTable i : Nat) : UInt64 :=
  if addressTable = 0 then 0
  else UInt64.ofNat
    (ctx.headers.imageBase.toNat + addressTable + i * ctx.headers.pointerWidth)

/-- What a thunk stands for. A thunk whose top bit is set holds an ordinal, another one holds the
address of a hint and a name. -/
def entryAt (addressTable i thunk : Nat) : ImportEntry :=
  if thunk.testBit (8 * ctx.headers.pointerWidth - 1) then
    { name := none
      ordinal := some (UInt16.ofNat (thunk % 2 ^ 16))
      hint := none
      slotAddress := slotAddressAt ctx addressTable i }
  else
    { name := nameAt? ctx content (thunk % 2 ^ 31)
      ordinal := none
      hint := hintAt? ctx content (thunk % 2 ^ 31)
      slotAddress := slotAddressAt ctx addressTable i }

def entriesIn (addressTable table count : Nat) : List ImportEntry :=
  (List.range count).map fun i =>
    entryAt ctx content addressTable i (thunkAt content ctx.headers.pointerWidth table i)

def entriesOf (w : Words) : List ImportEntry :=
  if w.thunkRva = 0 then []
  else match ctx.placeOf? w.thunkRva with
  | none => []
  | some table =>
    entriesIn ctx content w.addressTable table
      (thunkCount content ctx.headers.pointerWidth table)

def descriptorAt (place : Nat) : ImportDescriptor where
  library := ctx.textAt content (wordsAt content place).nameRva
  lookupTable := UInt32.ofNat (wordsAt content place).lookupTable
  timeDateStamp := UInt32.ofNat (wordsAt content place).timeDateStamp
  forwarderChain := UInt32.ofNat (wordsAt content place).forwarderChain
  nameRva := UInt32.ofNat (wordsAt content place).nameRva
  addressTable := UInt32.ofNat (wordsAt content place).addressTable
  entries := entriesOf ctx content (wordsAt content place)

structure Resolves (w : Words) : Prop where
  name : ctx.Backs content w.nameRva
  thunks : w.thunkRva ≠ 0 → ∃ table, ctx.placeOf? w.thunkRva = some table ∧
    ∃ count, ThunksClose content ctx.headers.pointerWidth table count

end Meaning

section Records

variable (content : ByteArray)

def Stands (place : Nat) : Prop :=
  place + 20 ≤ content.size ∧ ∃ b ∈ bytes content place 20, b ≠ 0

def Blank (place : Nat) : Prop :=
  place + 20 ≤ content.size ∧ ∀ b ∈ bytes content place 20, b = 0

instance (place : Nat) : Decidable (Stands content place) :=
  inferInstanceAs (Decidable (_ ∧ _))

/-- Of the records from an offset on, so many stand before the first one of zeros. -/
structure RecordsClose (offset count : Nat) : Prop where
  blank : Blank content (offset + 20 * count)
  stands : ∀ k < count, Stands content (offset + 20 * k)

/-- The places of the first records that have a name, in order. -/
def namedPlaces (offset count : Nat) : List Nat :=
  ((List.range count).map (offset + 20 * ·)).filter fun place =>
    (wordsAt content place).nameRva ≠ 0

variable (ctx : Context)

def entryCount (offset count : Nat) : Nat :=
  ((namedPlaces content offset count).map fun place =>
    (entriesOf ctx content (wordsAt content place)).length).sum

/-- All records together have fewer entries than are read. -/
def FewEntries (offset : Nat) : Prop :=
  ∀ count, (∀ k < count, Stands content (offset + 20 * k)) →
    entryCount content ctx offset count < ctx.options.maxImports.toNat

end Records

def Readable (ctx : Context) (content : ByteArray) (offset : Nat) : Prop :=
  ∃ count, RecordsClose content offset count ∧
    ∀ place ∈ namedPlaces content offset count, Resolves ctx content (wordsAt content place)

/-- The table says what the records before the closing one say, leaving out those without a name. -/
def Describes (ctx : Context) (content : ByteArray) (offset : Nat) (t : ImportTable) : Prop :=
  ∃ count, RecordsClose content offset count ∧
    t.descriptors = (namedPlaces content offset count).map (descriptorAt ctx content)

section Steps

variable {ctx : Context} {content : ByteArray} {offset k count : Nat}

theorem namedPlaces_succ :
    namedPlaces content offset (k + 1) = namedPlaces content offset k ++
      if (wordsAt content (offset + 20 * k)).nameRva ≠ 0 then [offset + 20 * k] else [] := by
  simp only [namedPlaces, List.range_succ, List.map_append, List.filter_append, List.map_cons,
    List.map_nil, List.filter_cons, List.filter_nil, decide_eq_true_eq]

theorem namedPlaces_succ_of_named (named : (wordsAt content (offset + 20 * k)).nameRva ≠ 0) :
    namedPlaces content offset (k + 1) = namedPlaces content offset k ++ [offset + 20 * k] := by
  rw [namedPlaces_succ, if_pos named]

theorem namedPlaces_succ_of_nameless (nameless : (wordsAt content (offset + 20 * k)).nameRva = 0) :
    namedPlaces content offset (k + 1) = namedPlaces content offset k := by
  rw [namedPlaces_succ, if_neg (not_not_intro nameless), List.append_nil]

theorem mem_namedPlaces (hk : k < count)
    (named : (wordsAt content (offset + 20 * k)).nameRva ≠ 0) :
    offset + 20 * k ∈ namedPlaces content offset count := by
  simp only [namedPlaces, List.mem_filter, List.mem_map, List.mem_range, decide_eq_true_eq]
  exact ⟨⟨k, hk, rfl⟩, named⟩

theorem entryCount_succ_of_named (named : (wordsAt content (offset + 20 * k)).nameRva ≠ 0) :
    entryCount content ctx offset (k + 1) = entryCount content ctx offset k +
      (entriesOf ctx content (wordsAt content (offset + 20 * k))).length := by
  rw [entryCount, namedPlaces_succ_of_named named, List.map_append, List.sum_append,
    List.map_singleton, List.sum_singleton]
  rfl

theorem Blank.not_stands {place : Nat} (h : Blank content place) : ¬ Stands content place := by
  rintro ⟨-, b, hMem, nonzero⟩
  exact nonzero (h.2 b hMem)

theorem forall_lt_succ_of_last {p : Nat → Prop} (earlier : ∀ j < k, p j) (last : p k) :
    ∀ j < k + 1, p j := by
  intro j hj
  obtain before | rfl := Nat.lt_succ_iff_lt_or_eq.mp hj
  · exact earlier j before
  · exact last

namespace RecordsClose

theorem le_count (h : RecordsClose content offset count)
    (stands : ∀ j < k, Stands content (offset + 20 * j)) : k ≤ count :=
  Nat.le_of_not_lt fun behind => h.blank.not_stands (stands count behind)

theorem inside (h : RecordsClose content offset count)
    (stands : ∀ j < k, Stands content (offset + 20 * j)) :
    offset + 20 * k + 20 ≤ content.size := by
  have hBlank := h.blank.1
  have hCount := h.le_count stands
  omega

end RecordsClose
end Steps
end Import
end PortableExecutable
