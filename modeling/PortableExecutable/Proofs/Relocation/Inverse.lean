import Mathlib.Data.List.Forall2
import PortableExecutable.Proofs.Budget.Directories
import PortableExecutable.Proofs.Relocation.Layout

/-!
Reading relocations undoes laying them out. The loop keeps a place and what remains of the declared
size; a run from there delivers the blocks that fill what remains, if the file has them, and stops
if it does not. The words of a block are all it reads after the header.
-/

namespace PortableExecutable
namespace RelocationBlock

/-- An entry keeps its word, and its address counts from the page. -/
structure Keeps (pageRva : UInt32) (word : UInt16) (entry : RelocationEntry) : Prop where
  word_eq : entry.kind.code.toNat * 4096 + entry.offset.toNat = word.toNat
  rva_eq : entry.rva.toNat = (pageRva.toNat + entry.offset.toNat) % 2 ^ 32

theorem keeps_entry (b : RelocationBlock) (word : UInt16) :
    Keeps b.pageRva word (b.entry word) := by
  have hOffset : (b.entry word).offset.toNat = word.toNat % 4096 :=
    (UInt16.toNat_and word 0x0FFF).trans (Nat.and_two_pow_sub_one_eq_mod word.toNat 12)
  have hCode : (b.entry word).kind.code.toNat = word.toNat / 4096 := by
    have hWord := word.toNat_lt
    change (RelocationKind.ofCode (word >>> 12).toUInt8).code.toNat = _
    rw [RelocationKind.code_ofCode, UInt16.toNat_toUInt8, UInt16.toNat_shiftRight,
      Nat.shiftRight_eq_div_pow]
    exact Nat.mod_eq_of_lt (by change word.toNat / 4096 < 256; omega)
  constructor
  · rw [hCode, hOffset, Nat.mul_comm, Nat.div_add_mod]
  · have hRva : (b.entry word).rva = b.pageRva + (b.entry word).offset.toUInt32 := rfl
    rw [hRva, UInt32.toNat_add, UInt16.toNat_toUInt32]

end RelocationBlock

namespace Relocation

/-- What is wrong with a file that has no blocks for the declared size. -/
inductive Rejection : ImageError → Prop where
  | malformed (offset size remaining : Nat) (h : size < 8 ∨ remaining < size) :
      Rejection (.malformedRelocationBlock offset size remaining)
  | cutHeader (offset found : Nat) :
      Rejection (.truncated .relocationHeader (.shortRead offset 8 found))
  | cutEntries (offset length found : Nat) :
      Rejection (.truncated .relocationEntries (.shortRead offset length found))

/-- The bytes that are read of blocks. -/
def encodedSize (blocks : List RelocationBlock) : Nat := (blocks.map (·.encodedSize)).sum

theorem encodedSize_cons {b : RelocationBlock} {blocks : List RelocationBlock} :
    encodedSize (b :: blocks) = b.encodedSize + encodedSize blocks := by
  rw [encodedSize, encodedSize, List.map_cons, List.sum_cons]

variable {content : ByteArray} {limits : Limits} {position : Nat}

theorem judges_readBlocks {offset remaining : Nat} {s : Session}
    (h : s.Reads content limits position) :
    Scan.Judges limits (readBlocks offset remaining) s
      (∃ blocks, Tiling content offset remaining blocks) Rejection fun blocks s' =>
        Tiling content offset remaining blocks ∧
          s'.reader = s.reader.charged (encodedSize blocks) := by
  induction remaining using Nat.strongRecOn generalizing offset s with
  | ind remaining ih => ?_
  have hSize := h.size_lt
  rw [readBlocks]
  split
  case isTrue hDone =>
    have hTiling : Tiling content offset remaining [] := tiling_nil_iff.mpr hDone
    exact Scan.judges_pure ⟨[], hTiling⟩ ⟨hTiling, rfl⟩
  case isFalse hMore =>
    -- whatever fills the rest begins with a block here, and every check asks for less than that
    refine Scan.Judges.iff ?_ (exists_tiling_iff hMore).symm
    refine (ImageScan.judges_recordAt h (.cutHeader offset)).bind ?_ ?_
    · intro hFirst
      obtain ⟨b, lies, _⟩ := hFirst
      have hEnd := lies.end_le
      rw [lies.encodedSize_eq] at hEnd
      omega
    intro header s₁ hHeaderEnd hRead₁
    obtain ⟨hHeader, hReader₁, h₁⟩ := hRead₁
    dsimp only
    split
    case isTrue malformed =>
      refine Scan.judges_fail (fun hFirst => ?_) (.malformed _ _ _ malformed)
      obtain ⟨b, lies, hFits, _⟩ := hFirst
      have hLe := lies.header_le
      rw [lies.blockSize_eq hHeader] at hLe hFits
      omega
    case isFalse sound =>
      refine Scan.judges_sum_bind (by omega) ?_
      refine (ImageScan.judges_recordAt h₁ (.cutEntries _ _)).bind ?_ ?_
      · intro hFirst
        obtain ⟨b, lies, _⟩ := hFirst
        have hEnd := lies.end_le
        rw [lies.encodedSize_eq, lies.blockSize_eq hHeader] at hEnd
        rw [deduct]
        omega
      intro words s₂ hWordsEnd hRead₂
      obtain ⟨hWords, hReader₂, h₂⟩ := hRead₂
      have lies := RelocationBlock.liesAt_of_storedAt hHeader hWords (by omega) rfl
      have hFits : (header.u32 4).toNat ≤ remaining := by omega
      have hNext : offset + (header.u32 4).toNat < 2 ^ 64 :=
        Nat.lt_of_le_of_lt lies.next_le (by omega)
      refine Scan.judges_sum_bind hNext ?_
      refine (ih _ (by rw [deduct]; omega) h₂).bind ?_ ?_
      · intro hFirst
        obtain ⟨b, lies', _, hRest⟩ := hFirst
        cases lies.unique lies'
        exact hRest
      intro rest s₃ _ hRead₃
      obtain ⟨hRest, hReader₃⟩ := hRead₃
      refine Scan.judges_pure ⟨_, lies, hFits, rest, hRest⟩
        ⟨tiling_cons_iff.mpr ⟨lies, hFits, hRest⟩, ?_⟩
      rw [hReader₃, hReader₂, hReader₁, Reader.charged_charged, Reader.charged_charged,
        encodedSize_cons, lies.encodedSize_eq, Nat.add_assoc]
      rfl

/-- The blocks lie in the file from the cursor on and fill the size that the headers declare. -/
def LaidOut (ctx : Context) (r : Reader) (blocks : List RelocationBlock) : Prop :=
  Tiling r.content r.position (ctx.headers.declaredSize 5) blocks

theorem judges_read (ctx : Context) {s : Session} (inside : s.reader.Inside) :
    Scan.Judges s.reader.limits (read ctx) s (∃ blocks, LaidOut ctx s.reader blocks) Rejection
      fun blocks s' => LaidOut ctx s.reader blocks ∧
        s'.reader = s.reader.charged (encodedSize blocks) := by
  refine Scan.judges_reader_bind ?_
  refine (judges_readBlocks ⟨rfl, rfl, rfl, inside⟩).bind id ?_
  intro blocks s' holds hBlocks
  exact Scan.judges_emit_bind fun log => Scan.judges_pure holds hBlocks

/-- What is read and what lies in the file determine each other. -/
structure Inverts (ctx : Context) (s : Session) : Prop where
  delivers_iff : ∀ blocks,
    (∃ s', read ctx s = .ok blocks s') ↔ LaidOut ctx s.reader blocks
  unique : ∀ blocks blocks', LaidOut ctx s.reader blocks → LaidOut ctx s.reader blocks' →
    blocks = blocks'
  counts : ∀ blocks s', read ctx s = .ok blocks s' →
    ∀ b ∈ blocks, b.typeOffsets.length = b.entryCount
  charges : ∀ blocks s', read ctx s = .ok blocks s' →
    s'.reader = s.reader.charged (encodedSize blocks)
  rejects : (∀ blocks, ¬ LaidOut ctx s.reader blocks) →
    ∃ e s', read ctx s = .error (.error e) s' ∧ Rejection e

/-- A budget that does not stop the run leaves the file to decide, and entries lose nothing of the
words they are decoded from. -/
theorem read_inverts_layout {ctx : Context} {s : Session} (inside : s.reader.Inside)
    (unhindered : (read ctx).Unhindered s) :
    Inverts ctx s ∧ ∀ b : RelocationBlock,
      List.Forall₂ (RelocationBlock.Keeps b.pageRva) b.typeOffsets b.entries := by
  have judged := judges_read ctx inside
  have delivered {blocks s'} (hRun : read ctx s = .ok blocks s') :=
    (Scan.Leads.ok judged hRun).2
  refine ⟨⟨fun blocks => ⟨?_, ?_⟩, fun _ _ => Tiling.unique, ?_,
    fun _ _ hRun => (delivered hRun).2, ?_⟩, ?_⟩
  · intro hRun
    obtain ⟨s', hRun⟩ := hRun
    exact (delivered hRun).1
  · intro laidOut
    obtain ⟨blocks', s', hRun⟩ := judged.exists_ok unhindered ⟨blocks, laidOut⟩
    rw [laidOut.unique (delivered hRun).1]
    exact ⟨s', hRun⟩
  · intro blocks s' hRun b hMem
    obtain ⟨k, hk, rfl⟩ := List.mem_iff_getElem.mp hMem
    exact ((delivered hRun).1.lies k hk).length_eq
  · intro none
    exact judged.exists_error unhindered fun ⟨blocks, laidOut⟩ => none blocks laidOut
  · intro b
    rw [RelocationBlock.entries, List.forall₂_map_right_iff, List.forall₂_same]
    exact fun word _ => b.keeps_entry word

/-- Two blocks, the second of odd size and without its last byte, for a page at whose end addresses
go on from zero. -/
def twoBlocks : Session where
  reader :=
    { label := "memory"
      content := ⟨#[0, 0, 0, 0,
        0x00, 0x10, 0x00, 0x00, 12, 0, 0, 0, 0x04, 0x30, 0x08, 0xA0,
        0xF0, 0xFF, 0xFF, 0xFF, 11, 0, 0, 0, 0x20, 0x30]⟩
      limits := {}
      position := 4 }

theorem read_inverts_layout_twoBlocks :
    let ctx : Context := ⟨{ directories := [{}, {}, {}, {}, {}, ⟨4, 23⟩] }, {}⟩
    twoBlocks.reader.Inside ∧ (read ctx).Unhindered twoBlocks ∧ Inverts ctx twoBlocks ∧
      (∀ b : RelocationBlock,
        List.Forall₂ (RelocationBlock.Keeps b.pageRva) b.typeOffsets b.entries) ∧
      (read ctx).delivered? twoBlocks =
        some [⟨0x1000, 12, [0x3004, 0xA008]⟩, ⟨0xFFFFFFF0, 11, [0x3020]⟩] ∧
      (⟨0xFFFFFFF0, 11, [0x3020]⟩ : RelocationBlock).entries = [⟨.highLow, 0x20, 0x10⟩] := by
  intro ctx
  have inside : twoBlocks.reader.Inside := ⟨by decide, by decide, fun _ => by decide⟩
  have hRead : (read ctx).delivered? twoBlocks =
      some [⟨0x1000, 12, [0x3004, 0xA008]⟩, ⟨0xFFFFFFF0, 11, [0x3020]⟩] := by decide +kernel
  have unhindered : (read ctx).Unhindered twoBlocks :=
    costs_read.unhindered (by decide +kernel) (by decide)
  exact ⟨inside, unhindered, (read_inverts_layout inside unhindered).1,
    (read_inverts_layout inside unhindered).2, hRead, by decide⟩

end Relocation
end PortableExecutable
