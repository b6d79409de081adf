import PortableExecutable.Headers
import PortableExecutable.Proofs.Stored

/-!
The layout of the headers, told from the bytes of a file alone. Every place and count is a number
that the file stores; `HasHeaders` says which files hold all headers, and `failure?` what is wrong
with the others: the first part, in the order in which the parts depend on each other, that is not
there or not what it must be.
-/

namespace PortableExecutable
namespace Layout

variable (content : ByteArray)

/-- Where the PE header is. -/
def peOffset : Nat := number content 60 4

def sectionCount : Nat := number content (peOffset content + 6) 2

/-- What the PE header declares as the size of the optional header, zero without one. -/
def optionalSize : Nat := number content (peOffset content + 20) 2

def optionalOffset : Nat := peOffset content + 24

def magic : Nat := number content (optionalOffset content) 2

/-- The bytes of an optional header in front of its data directories. -/
def fixedSize : Nat := if magic content = 0x20B then 112 else 96

/-- The entries of the data directory array. The last word of the fixed part declares their number,
of which no more than sixteen count. -/
def directoryCount : Nat :=
  min (number content (optionalOffset content + fixedSize content - 4) 4) 16

/-- Where the section table is. It depends on the declared size of the optional header only. -/
def sectionOffset : Nat := optionalOffset content + optionalSize content

/-- The headers are all there. -/
structure HasHeaders : Prop where
  dos : 64 ≤ content.size ∧ bytes content 0 2 = [0x4D, 0x5A]
  pe : peOffset content + 24 ≤ content.size ∧
    bytes content (peOffset content) 4 = [0x50, 0x45, 0, 0]
  optional : optionalSize content = 0 ∨
    optionalOffset content + 24 ≤ content.size ∧
      (magic content = 0x10B ∧
          optionalOffset content + 96 +
            8 * min (number content (optionalOffset content + 92) 4) 16 ≤ content.size ∨
        magic content = 0x20B ∧
          optionalOffset content + 112 +
            8 * min (number content (optionalOffset content + 108) 4) 16 ≤ content.size)
  sections : sectionOffset content + 40 * sectionCount content ≤ content.size

section Failures

/-- A place that has to be in the file or at its end. -/
def reach? (piece : Piece) (offset : Nat) : Option ImageError :=
  if offset ≤ content.size then none else some (.unreachable piece offset)

/-- A piece that has to be in the file as a whole. -/
def cut? (piece : Piece) (offset length : Nat) : Option ImageError :=
  if offset + length ≤ content.size then none
  else some (.truncated piece (.shortRead offset length (content.size - offset)))

/-- The first of some consecutive pieces of one size that is not in the file as a whole. -/
def cutAmong? (piece : Piece) (width offset : Nat) : Nat → Option ImageError
  | 0 => none
  | count + 1 =>
    (cut? content piece offset width).or (cutAmong? piece width (offset + width) count)

def dosFailure? : Option ImageError :=
  if content.size < 64 then some (.fileTooSmall content.size)
  else if bytes content 0 2 = [0x4D, 0x5A] then none
  else some (.invalidDosSignature (raw content 0 2))

def peFailure? : Option ImageError :=
  (reach? content .peHeader (peOffset content)).or <|
    (cut? content .peHeader (peOffset content) 24).or <|
      if bytes content (peOffset content) 4 = [0x50, 0x45, 0, 0] then none
      else some (.invalidPeSignature (raw content (peOffset content) 4))

/-- The fixed part is read in four pieces, the first of which tells the shape of the others. -/
def fixedFailure? (offset : Nat) : Option ImageError :=
  (cut? content .optionalHeader offset 24).or <|
    if magic content = 0x10B then
      (cut? content .optionalHeader32 (offset + 24) 8).or <|
        (cut? content .optionalHeaderShared (offset + 32) 40).or <|
          cut? content .reserves32 (offset + 72) 24
    else if magic content = 0x20B then
      (cut? content .optionalHeader64 (offset + 24) 8).or <|
        (cut? content .optionalHeaderShared (offset + 32) 40).or <|
          cut? content .reserves64 (offset + 72) 40
    else some (.invalidMagic (UInt16.ofNat (magic content)))

def optionalFailure? : Option ImageError :=
  if optionalSize content = 0 then none
  else
    (reach? content .optionalHeader (optionalOffset content)).or <|
      (fixedFailure? content (optionalOffset content)).or <|
        cutAmong? content .dataDirectory 8 (optionalOffset content + fixedSize content)
          (directoryCount content)

def sectionFailure? : Option ImageError :=
  (reach? content .sectionTable (sectionOffset content)).or <|
    cutAmong? content .sectionHeader 40 (sectionOffset content) (sectionCount content)

def failure? : Option ImageError :=
  (dosFailure? content).or <| (peFailure? content).or <|
    (optionalFailure? content).or <| sectionFailure? content

end Failures

variable {content}

theorem reach?_eq_none_iff {piece : Piece} {offset : Nat} :
    reach? content piece offset = none ↔ offset ≤ content.size := by
  simp [reach?]

theorem cut?_eq_none_iff {piece : Piece} {offset length : Nat} :
    cut? content piece offset length = none ↔ offset + length ≤ content.size := by
  simp [cut?]

theorem cutAmong?_eq_none_iff {piece : Piece} {width offset count : Nat}
    (inside : offset ≤ content.size) :
    cutAmong? content piece width offset count = none ↔
      offset + width * count ≤ content.size := by
  induction count generalizing offset with
  | zero => simp [cutAmong?, inside]
  | succ count ih =>
      rw [cutAmong?, Option.or_eq_none_iff, cut?_eq_none_iff, Nat.mul_succ]
      constructor
      · intro h
        have hRest := (ih h.1).mp h.2
        omega
      · intro h
        have hFirst : offset + width ≤ content.size := by omega
        exact ⟨hFirst, (ih hFirst).mpr (by omega)⟩

theorem raw_eq_iff {offset count : Nat} {expected : Vector UInt8 count}
    (inside : offset + count ≤ content.size) :
    raw content offset count = expected ↔
      bytes content offset count = expected.toList := by
  rw [← toList_raw (length_bytes inside)]
  exact ⟨fun h => h ▸ rfl, fun h => Vector.toList_inj.mp h⟩

theorem dosFailure?_eq_none_iff :
    dosFailure? content = none ↔
      64 ≤ content.size ∧ bytes content 0 2 = [0x4D, 0x5A] := by
  rw [dosFailure?]
  by_cases small : content.size < 64
  · rw [if_pos small]
    exact iff_of_false (fun h => nomatch h) (fun h => by omega)
  · simp only [if_neg small, ite_eq_left_iff, reduceCtorEq, imp_false, Decidable.not_not]
    exact ⟨fun h => ⟨by omega, h⟩, fun h => h.2⟩

theorem peFailure?_eq_none_iff :
    peFailure? content = none ↔
      peOffset content + 24 ≤ content.size ∧
        bytes content (peOffset content) 4 = [0x50, 0x45, 0, 0] := by
  rw [peFailure?, Option.or_eq_none_iff, Option.or_eq_none_iff, reach?_eq_none_iff,
    cut?_eq_none_iff]
  simp only [ite_eq_left_iff, reduceCtorEq, imp_false, Decidable.not_not]
  constructor
  · intro h
    exact h.2
  · intro h
    exact ⟨by omega, h⟩

theorem fixedFailure?_eq_none_iff {offset : Nat} :
    fixedFailure? content offset = none ↔
      offset + 24 ≤ content.size ∧
        (magic content = 0x10B ∨ magic content = 0x20B) ∧
          offset + fixedSize content ≤ content.size := by
  rw [fixedFailure?, fixedSize, Option.or_eq_none_iff, cut?_eq_none_iff]
  by_cases narrow : magic content = 0x10B
  · simp only [narrow, if_true, Option.or_eq_none_iff, cut?_eq_none_iff]
    simp only [Nat.reduceEqDiff, if_false, true_or, true_and]
    omega
  · rw [if_neg narrow]
    by_cases wide : magic content = 0x20B
    · simp only [wide, if_true, Option.or_eq_none_iff, cut?_eq_none_iff, or_true, true_and]
      omega
    · rw [if_neg wide]
      exact iff_of_false (fun h => nomatch h.2) (fun h => by omega)

theorem optionalFailure?_eq_none_iff (present : optionalSize content ≠ 0) :
    optionalFailure? content = none ↔
      optionalOffset content + 24 ≤ content.size ∧
        (magic content = 0x10B ∨ magic content = 0x20B) ∧
          optionalOffset content + fixedSize content + 8 * directoryCount content ≤
            content.size := by
  rw [optionalFailure?, if_neg present, Option.or_eq_none_iff, Option.or_eq_none_iff,
    reach?_eq_none_iff, fixedFailure?_eq_none_iff]
  constructor
  · intro h
    exact ⟨h.2.1.1, h.2.1.2.1, (cutAmong?_eq_none_iff h.2.1.2.2).mp h.2.2⟩
  · intro h
    have hFixed : optionalOffset content + fixedSize content ≤ content.size := by omega
    exact ⟨by omega, ⟨h.1, h.2.1, hFixed⟩, (cutAmong?_eq_none_iff hFixed).mpr h.2.2⟩

theorem sectionFailure?_eq_none_iff :
    sectionFailure? content = none ↔
      sectionOffset content + 40 * sectionCount content ≤ content.size := by
  rw [sectionFailure?, Option.or_eq_none_iff, reach?_eq_none_iff]
  constructor
  · intro h
    exact (cutAmong?_eq_none_iff h.1).mp h.2
  · intro h
    have inside : sectionOffset content ≤ content.size := by omega
    exact ⟨inside, (cutAmong?_eq_none_iff inside).mpr h⟩

theorem directories_fit_iff :
    (magic content = 0x10B ∨ magic content = 0x20B) ∧
        optionalOffset content + fixedSize content + 8 * directoryCount content ≤
          content.size ↔
      magic content = 0x10B ∧
          optionalOffset content + 96 +
            8 * min (number content (optionalOffset content + 92) 4) 16 ≤ content.size ∨
        magic content = 0x20B ∧
          optionalOffset content + 112 +
            8 * min (number content (optionalOffset content + 108) 4) 16 ≤ content.size := by
  rw [directoryCount, fixedSize]
  by_cases wide : magic content = 0x20B
  · simp [wide, Nat.add_sub_assoc]
  · simp [wide, Nat.add_sub_assoc]

/-- Nothing is wrong exactly with the files that hold all headers. -/
theorem failure?_eq_none_iff : failure? content = none ↔ HasHeaders content := by
  rw [failure?, Option.or_eq_none_iff, Option.or_eq_none_iff, Option.or_eq_none_iff,
    dosFailure?_eq_none_iff, peFailure?_eq_none_iff, sectionFailure?_eq_none_iff]
  by_cases absent : optionalSize content = 0
  · rw [optionalFailure?, if_pos absent]
    exact ⟨fun h => ⟨h.1, h.2.1, .inl absent, h.2.2.2⟩, fun h => ⟨h.dos, h.pe, rfl, h.sections⟩⟩
  · rw [optionalFailure?_eq_none_iff absent, directories_fit_iff]
    constructor
    · intro h
      exact ⟨h.1, h.2.1, .inr h.2.2.1, h.2.2.2⟩
    · intro h
      exact ⟨h.dos, h.pe, h.optional.resolve_left absent, h.sections⟩

/-- A failure that has nothing to do with a read budget. -/
def Budgetless (failure? : Option ImageError) : Prop :=
  ∀ piece limit used, failure? ≠ some (.truncated piece (.readLimitExceeded limit used))

section Budgetless

variable {a b : Option ImageError} {piece : Piece} {offset : Nat}

theorem Budgetless.or (h : Budgetless a) (h' : Budgetless b) : Budgetless (a.or b) := by
  cases a with
  | none => exact h'
  | some e => exact h

theorem Budgetless.ite {c : Prop} [Decidable c] (h : Budgetless a) (h' : Budgetless b) :
    Budgetless (if c then a else b) := by
  by_cases hc : c
  · rwa [if_pos hc]
  · rwa [if_neg hc]

theorem budgetless_none : Budgetless none := nofun

theorem budgetless_reach? : Budgetless (reach? content piece offset) :=
  budgetless_none.ite nofun

theorem budgetless_cut? {length : Nat} : Budgetless (cut? content piece offset length) :=
  budgetless_none.ite nofun

theorem budgetless_cutAmong? {width count : Nat} :
    Budgetless (cutAmong? content piece width offset count) := by
  induction count generalizing offset with
  | zero => exact budgetless_none
  | succ count ih => exact budgetless_cut?.or ih

theorem budgetless_fixedFailure? : Budgetless (fixedFailure? content offset) := by
  refine budgetless_cut?.or (.ite ?_ (.ite ?_ nofun))
  · exact budgetless_cut?.or (budgetless_cut?.or budgetless_cut?)
  · exact budgetless_cut?.or (budgetless_cut?.or budgetless_cut?)

theorem budgetless_failure? : Budgetless (failure? content) := by
  refine .or (.ite nofun (budgetless_none.ite nofun)) (.or ?_ (.or ?_ ?_))
  · exact budgetless_reach?.or (budgetless_cut?.or (budgetless_none.ite nofun))
  · exact budgetless_none.ite
      (budgetless_reach?.or (budgetless_fixedFailure?.or budgetless_cutAmong?))
  · exact budgetless_reach?.or budgetless_cutAmong?

end Budgetless

instance (content : ByteArray) : Decidable (HasHeaders content) :=
  decidable_of_iff ((failure? content).isNone = true)
    (Option.isNone_iff_eq_none.trans failure?_eq_none_iff)

end Layout
end PortableExecutable
