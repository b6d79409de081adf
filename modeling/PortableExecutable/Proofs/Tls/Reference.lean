import Mathlib.Order.Bounds.Basic
import PortableExecutable.Proofs.Budget.Directories
import PortableExecutable.Proofs.Location.Places
import PortableExecutable.Proofs.Safety.Import

/-!
Reading the directory of thread-local storage follows its pointers. The record has four words as
wide as a pointer and two of 32 bits, in either width, although a 32-bit one is read word by word
and a 64-bit one at once. The callbacks are the words from the place of their table on, up to the
first index at which the table ends: at the bound on callbacks, at the end of the file or at a zero.
-/

namespace PortableExecutable
namespace Tls

open Layout

/-- The bytes of a record with pointers of the given width. -/
def recordSize (width : Nat) : Nat := 4 * width + 8

/-- The address of the callbacks that the record at a place has. -/
def tableAddressAt (content : ByteArray) (width place : Nat) : Nat :=
  number content (place + 3 * width) width

/-- An entry of a table of pointers. -/
def callbackAt (content : ByteArray) (width table i : Nat) : Nat :=
  number content (table + i * width) width

/-- Why a table of callbacks ends before the entry of an index. -/
inductive Ends (content : ByteArray) (width table bound i : Nat) : Prop
  | bounded (h : i = bound)
  | cut (h : content.size < table + (i + 1) * width)
  | null (h : callbackAt content width table i = 0)

/-- A record is that of a place: its words widened, in their order. -/
structure RecordAt (content : ByteArray) (width place : Nat) (d : TlsDirectory) : Prop where
  start_eq : d.startAddressOfRawData.toNat = number content place width
  end_eq : d.endAddressOfRawData.toNat = number content (place + width) width
  index_eq : d.addressOfIndex.toNat = number content (place + 2 * width) width
  callbacks_eq : d.addressOfCallbacks.toNat = tableAddressAt content width place
  zeroFill_eq : d.sizeOfZeroFill.toNat = number content (place + 4 * width) 4
  characteristics_eq : d.characteristics.toNat = number content (place + 4 * width + 4) 4

/-- The callbacks are the entries of the table before the first index at which it ends. -/
structure CallbacksAt (content : ByteArray) (width table bound : Nat) (callbacks : List UInt64) :
    Prop where
  entries : ∃ count, IsLeast {i | Ends content width table bound i} count ∧
    callbacks.map (·.toNat) = (List.range count).map (callbackAt content width table)
  nonzero : 0 ∉ callbacks

section Directory

variable (ctx : Context) (content : ByteArray) (place : Nat)

/-- The record is in the file, and its address of callbacks leads to a place within the file. -/
structure Readable : Prop where
  inside : place + recordSize ctx.headers.pointerWidth ≤ content.size
  reached : ∃ table, ctx.PutsVaAt (tableAddressAt content ctx.headers.pointerWidth place) table ∧
    table ≤ content.size

structure Describes (d : TlsDirectory) : Prop where
  record : RecordAt content ctx.headers.pointerWidth place d
  callbacks : ∃ table, ctx.PutsVaAt d.addressOfCallbacks.toNat table ∧
    CallbacksAt content ctx.headers.pointerWidth table ctx.options.maxTlsCallbacks.toNat
      d.callbacks

/-- Why there is no directory at the place. -/
inductive Rejects : ImageError → Prop
  | truncated {offset length found : Nat} :
      content.size < place + recordSize ctx.headers.pointerWidth →
      Rejects (.truncated .tlsDirectory (.shortRead offset length found))
  | unmapped : place + recordSize ctx.headers.pointerWidth ≤ content.size →
      (∀ table, ¬ ctx.PutsVaAt (tableAddressAt content ctx.headers.pointerWidth place) table) →
      Rejects (.unmappedAddress .tlsCallbackTable
        (tableAddressAt content ctx.headers.pointerWidth place))
  | unreachable {table : Nat} : place + recordSize ctx.headers.pointerWidth ≤ content.size →
      ctx.PutsVaAt (tableAddressAt content ctx.headers.pointerWidth place) table →
      content.size < table → Rejects (.unreachable .tlsCallbackTable table)

end Directory

variable {ctx : Context} {content : ByteArray} {limits : Limits} {position : Nat} {s : Session}
  {rejected : ImageError → Prop}

section Record

variable (short : ∀ offset length found,
  rejected (.truncated .tlsDirectory (.shortRead offset length found)))

include short

theorem judges_readWord32 (h : s.Reads content limits position) :
    Scan.Judges limits readWord32 s (position + 4 ≤ content.size) rejected fun word s' =>
      word.toNat = number content position 4 ∧ s'.Reads content limits (position + 4) := by
  refine (ImageScan.judges_word32 h (short _ _)).bind id ?_
  intro word s₁ inside hWord
  exact Scan.judges_pure inside ⟨by rw [UInt32.toNat_toUInt64, hWord.1], hWord.2⟩

theorem judges_readFixed32 (h : s.Reads content limits position) :
    Scan.Judges limits readFixed32 s (position + recordSize 4 ≤ content.size) rejected
      fun d s' => RecordAt content 4 position d ∧
        s'.Reads content limits (position + recordSize 4) := by
  rw [readFixed32, recordSize]
  refine (judges_readWord32 short h).bind (by omega) ?_
  intro start s₁ _ hStart
  refine (judges_readWord32 short hStart.2).bind (by omega) ?_
  intro stop s₂ _ hStop
  refine (judges_readWord32 short hStop.2).bind (by omega) ?_
  intro index s₃ _ hIndex
  refine (judges_readWord32 short hIndex.2).bind (by omega) ?_
  intro callbacks s₄ _ hCallbacks
  refine (ImageScan.judges_record hCallbacks.2 (short _ _)).bind (by omega) ?_
  intro tail s₅ inside hTail
  exact Scan.judges_pure inside ⟨⟨hStart.1, hStop.1, hIndex.1, hCallbacks.1,
    hTail.1.toNat_u32 _, hTail.1.toNat_u32 _⟩, hTail.2⟩

theorem judges_readFixed64 (h : s.Reads content limits position) :
    Scan.Judges limits readFixed64 s (position + recordSize 8 ≤ content.size) rejected
      fun d s' => RecordAt content 8 position d ∧
        s'.Reads content limits (position + recordSize 8) := by
  rw [readFixed64, recordSize]
  refine (ImageScan.judges_record h (short _ _)).bind id ?_
  intro r s₁ inside hRecord
  obtain ⟨stored, h₁⟩ := hRecord
  exact Scan.judges_pure inside ⟨⟨stored.toNat_u64 _, stored.toNat_u64 _, stored.toNat_u64 _,
    stored.toNat_u64 _, stored.toNat_u32 _, stored.toNat_u32 _⟩, h₁⟩

/-- In both widths the record is that of the cursor. -/
theorem judges_readFixed (h : s.Reads content limits position) :
    Scan.Judges limits (readFixed ctx.headers) s
      (position + recordSize ctx.headers.pointerWidth ≤ content.size) rejected
      fun d s' => RecordAt content ctx.headers.pointerWidth position d ∧
        s'.Reads content limits (position + recordSize ctx.headers.pointerWidth) := by
  rw [readFixed, Headers.pointerWidth, OptionalHeader.pointerWidth, Headers.is64Bit]
  split
  case isTrue wide => exact judges_readFixed64 short h
  case isFalse narrow => exact judges_readFixed32 short h

end Record

/-- The pointer at the cursor, or that the file ends inside it. -/
theorem judges_readPointer? (h : s.Reads content limits position) :
    Scan.Judges limits (readPointer? ctx) s True rejected fun pointer? s' =>
      match pointer? with
      | some pointer => position + ctx.headers.pointerWidth ≤ content.size ∧
          pointer.toNat = number content position ctx.headers.pointerWidth ∧
          s'.Reads content limits (position + ctx.headers.pointerWidth)
      | none => content.size < position + ctx.headers.pointerWidth := by
  have hWidth := ctx.headers.pointerWidth_eq_or
  rw [readPointer?]
  refine (ImageScan.judges_chunk h).bind id ?_
  intro chunk s₁ _ hChunk
  obtain ⟨hExtract, h₁⟩ := hChunk
  have hSize : chunk.size =
      min (position + ctx.headers.pointerWidth) content.size - position := by
    rw [hExtract, ByteArray.size_extract]
  split
  case isTrue whole =>
    have hNumber : number content position ctx.headers.pointerWidth < 2 ^ 64 :=
      Nat.lt_of_lt_of_le (number_lt position ctx.headers.pointerWidth)
        (Nat.pow_le_pow_right (by decide) (by omega : ctx.headers.pointerWidth ≤ 8))
    have stored : Record.StoredAt ⟨chunk, whole⟩ content position := hExtract
    rw [whole] at h₁
    refine Scan.judges_pure trivial ⟨by omega, ?_, h₁⟩
    rw [number] at hNumber ⊢
    rw [stored.field, Nat.add_zero, UInt64.toNat_ofNat', Nat.mod_eq_of_lt hNumber]
  case isFalse cut => exact Scan.judges_pure trivial (by dsimp only; omega)

section Table

variable {width table bound i : Nat}

theorem Ends.isLeast (ends : Ends content width table bound i)
    (goesOn : ∀ j < i, ¬ Ends content width table bound j) :
    IsLeast {i | Ends content width table bound i} i :=
  ⟨ends, fun j ends' => Nat.le_of_not_lt fun before => goesOn j before ends'⟩

theorem not_ends_of_ne_zero (below : i < bound) (inside : table + (i + 1) * width ≤ content.size)
    (nonzero : callbackAt content width table i ≠ 0) : ¬ Ends content width table bound i := by
  rintro (full | cut | null)
  · exact absurd full (Nat.ne_of_lt below)
  · exact absurd inside (Nat.not_le.mpr cut)
  · exact nonzero null

/-- No entry before the first index at which the table ends is zero. -/
theorem zero_not_mem_of_entries {callbacks : List UInt64}
    (least : IsLeast {i | Ends content width table bound i} i)
    (entries : callbacks.map (·.toNat) = (List.range i).map (callbackAt content width table)) :
    0 ∉ callbacks := by
  intro zero
  have hMem : 0 ∈ callbacks.map (·.toNat) := List.mem_map.mpr ⟨0, zero, rfl⟩
  rw [entries, List.mem_map] at hMem
  obtain ⟨j, hj, null⟩ := hMem
  exact Nat.not_lt.mpr (least.2 (.null null)) (List.mem_range.mp hj)

end Table

/-- The first callbacks are known, and the table goes on after each of them. The room is what they
leave of the bound. -/
theorem judges_readCallbacks {table room known : Nat}
    (h : s.Reads content limits (table + known * ctx.headers.pointerWidth))
    (hRoom : known + room = ctx.options.maxTlsCallbacks.toNat)
    (goesOn : ∀ i < known, ¬ Ends content ctx.headers.pointerWidth table
      ctx.options.maxTlsCallbacks.toNat i) :
    Scan.Judges limits (readCallbacks ctx room known) s True rejected fun rest _ =>
      ∃ count, IsLeast {i | Ends content ctx.headers.pointerWidth table
          ctx.options.maxTlsCallbacks.toNat i} count ∧
        (List.range known).map (callbackAt content ctx.headers.pointerWidth table) ++
            rest.map (·.toNat) =
          (List.range count).map (callbackAt content ctx.headers.pointerWidth table) := by
  induction room generalizing s known with
  | zero =>
      exact Scan.judges_emit_bind fun _ => Scan.judges_pure trivial
        ⟨known, Ends.isLeast (.bounded hRoom) goesOn, List.append_nil _⟩
  | succ room ih =>
      have hNext : table + (known + 1) * ctx.headers.pointerWidth =
          table + known * ctx.headers.pointerWidth + ctx.headers.pointerWidth := by
        rw [Nat.succ_mul, Nat.add_assoc]
      refine (judges_readPointer? h).bind id ?_
      intro pointer? s₁ _ hPointer
      cases pointer? with
      | none =>
          rw [← hNext] at hPointer
          exact Scan.judges_emit_bind fun _ => Scan.judges_pure trivial
            ⟨known, Ends.isLeast (.cut hPointer) goesOn, List.append_nil _⟩
      | some callback =>
          rw [← hNext] at hPointer
          obtain ⟨inside, hCallback, h₁⟩ := hPointer
          change callback.toNat = callbackAt content ctx.headers.pointerWidth table known
            at hCallback
          dsimp only
          split
          case isTrue zero =>
            have null : callbackAt content ctx.headers.pointerWidth table known = 0 := by
              rw [← hCallback, zero]
              rfl
            exact Scan.judges_pure trivial
              ⟨known, Ends.isLeast (.null null) goesOn, List.append_nil _⟩
          case isFalse nonzero =>
            have goesOnHere : ¬ Ends content ctx.headers.pointerWidth table
                ctx.options.maxTlsCallbacks.toNat known :=
              not_ends_of_ne_zero (by omega) inside fun null =>
                nonzero (UInt64.toNat_inj.mp (hCallback.trans null))
            refine (ih h₁ (by omega)
              (Nat.forall_lt_succ_right.mpr ⟨goesOn, goesOnHere⟩)).bind id ?_
            intro rest s₂ _ hRest
            obtain ⟨count, least, entries⟩ := hRest
            refine Scan.judges_pure trivial ⟨count, least, ?_⟩
            rw [← entries, List.range_succ, List.map_append, List.append_assoc, List.map_cons,
              hCallback]
            rfl

/-- The record is known; what is left is the table that it points to. -/
theorem judges_readTable {d : TlsDirectory} {place : Nat} (h : s.Reads content limits position)
    (inside : place + recordSize ctx.headers.pointerWidth ≤ content.size)
    (hRecord : RecordAt content ctx.headers.pointerWidth place d) :
    Scan.Judges limits (readTable ctx d) s (Readable ctx content place)
      (Rejects ctx content place) fun found? _ =>
        ∃ found, found? = some found ∧ Describes ctx content place found := by
  have hAddress := hRecord.callbacks_eq
  rw [readTable, hAddress]
  refine Context.gives_translateVa.judges_bind fun log => ?_
  cases hTable : ctx.placeOfVa? (tableAddressAt content ctx.headers.pointerWidth place) with
  | none =>
      have unmapped (table : Nat) :
          ¬ ctx.PutsVaAt (tableAddressAt content ctx.headers.pointerWidth place) table := by
        rw [← Context.placeOfVa?_eq_some_iff, hTable]
        exact nofun
      exact Scan.judges_fail (fun readable => readable.reached.elim fun table h =>
        unmapped table h.1) (.unmapped inside unmapped)
  | some table =>
      have hPuts := Context.placeOfVa?_eq_some_iff.mp hTable
      have h₀ : Session.Reads content limits position ⟨s.reader, log⟩ := h.of_reader_eq rfl
      refine (ImageScan.judges_reach h₀ fun past =>
        .unreachable inside hPuts (Nat.lt_of_not_le past)).bind ?_ ?_
      · rintro ⟨-, other, hPuts', within⟩
        rwa [hPuts.unique hPuts']
      intro _ s₁ within h₁
      have hStart : table + 0 * ctx.headers.pointerWidth = table := by
        rw [Nat.zero_mul, Nat.add_zero]
      refine (judges_readCallbacks (hStart.symm ▸ h₁) (Nat.zero_add _) nofun).bind
        (fun _ => trivial) ?_
      intro callbacks s₂ _ hCallbacks
      obtain ⟨count, least, entries⟩ := hCallbacks
      rw [List.range_zero, List.map_nil, List.nil_append] at entries
      have describes : Describes ctx content place { d with callbacks } :=
        ⟨⟨hRecord.start_eq, hRecord.end_eq, hRecord.index_eq, hAddress, hRecord.zeroFill_eq,
          hRecord.characteristics_eq⟩, table, hAddress.symm ▸ hPuts, ⟨count, least, entries⟩,
          zero_not_mem_of_entries least entries⟩
      exact Scan.judges_emit_bind fun _ =>
        Scan.judges_pure ⟨inside, table, hPuts, within⟩ ⟨_, rfl, describes⟩

theorem judges_read (h : s.Reads content limits position) :
    Scan.Judges limits (read ctx) s (Readable ctx content position)
      (Rejects ctx content position) fun found? _ =>
        ∃ found, found? = some found ∧ Describes ctx content position found := by
  have hFixed : Scan.Judges limits (readFixed ctx.headers) s
      (position + recordSize ctx.headers.pointerWidth ≤ content.size)
      (fun e => ∃ offset length found,
        e = .truncated .tlsDirectory (.shortRead offset length found)) _ :=
    judges_readFixed (fun _ _ _ => ⟨_, _, _, rfl⟩) h
  rw [read_eq]
  refine (hFixed.reject ?_).bind Readable.inside ?_
  · rintro e outside ⟨_, _, _, rfl⟩
    exact .truncated (Nat.lt_of_not_le outside)
  intro d s₁ inside hRecord
  exact judges_readTable hRecord.2 inside hRecord.1

/-- What reading comes to from a session: a directory where the file has one, and otherwise the
error that says why not. -/
structure Follows (ctx : Context) (s : Session) : Prop where
  ok_iff : (∃ found? s', read ctx s = .ok found? s') ↔
    Readable ctx s.reader.content s.reader.position
  delivers : Readable ctx s.reader.content s.reader.position →
    ∃ found s', read ctx s = .ok (some found) s' ∧
      Describes ctx s.reader.content s.reader.position found
  rejects : ¬ Readable ctx s.reader.content s.reader.position →
    ∃ e s', read ctx s = .error (.error e) s' ∧
      Rejects ctx s.reader.content s.reader.position e

theorem read_follows_pointers (inside : s.reader.Inside) (unhindered : (read ctx).Unhindered s) :
    Follows ctx s := by
  have hReads : s.Reads s.reader.content s.reader.limits s.reader.position :=
    ⟨rfl, rfl, rfl, inside⟩
  have judged : Scan.Judges s.reader.limits (read ctx) s
      (Readable ctx s.reader.content s.reader.position)
      (Rejects ctx s.reader.content s.reader.position) _ := judges_read hReads
  refine ⟨judged.exists_ok_iff unhindered, fun readable => ?_, fun refuted => ?_⟩
  · obtain ⟨found?, s', hRun⟩ := judged.exists_ok unhindered readable
    obtain ⟨-, found, rfl, describes⟩ := judged.ok hRun
    exact ⟨found, s', hRun, describes⟩
  · exact judged.exists_error unhindered refuted

def narrowContext : Context := ⟨{ optional := .pe32 { imageBase := 0x400000 } }, {}⟩

/-- A record of 24 bytes at place 4, and behind it two callbacks and a zero. -/
def narrow : Session where
  reader :=
    { label := "memory"
      content := ⟨#[0, 0, 0, 0,
        1, 0, 64, 0, 2, 0, 64, 0, 3, 0, 64, 0, 28, 0, 64, 0, 4, 0, 0, 0, 5, 0, 0, 0,
        7, 0, 64, 0, 9, 0, 64, 0, 0, 0, 0, 0]⟩
      limits := {}
      position := 4 }

def wideContext : Context := ⟨{ optional := .pe32Plus { imageBase := 0x140000000 } }, {}⟩

/-- A record of 40 bytes at the start, and behind it one callback and the first bytes of another. -/
def wide : Session where
  reader :=
    { label := "memory"
      content := ⟨#[1, 0, 0, 64, 1, 0, 0, 0, 2, 0, 0, 64, 1, 0, 0, 0, 3, 0, 0, 64, 1, 0, 0, 0,
        40, 0, 0, 64, 1, 0, 0, 0, 4, 0, 0, 0, 5, 0, 0, 0,
        7, 0, 0, 64, 1, 0, 0, 0, 9, 0, 0]⟩
      limits := {} }

theorem read_follows_pointers_bothWidths :
    narrow.reader.Inside ∧ (read narrowContext).Unhindered narrow ∧ Follows narrowContext narrow ∧
      (read narrowContext).delivered? narrow = some (some ⟨0x400001, 0x400002, 0x400003, 0x40001C,
        4, 5, [0x400007, 0x400009]⟩) ∧
      wide.reader.Inside ∧ (read wideContext).Unhindered wide ∧ Follows wideContext wide ∧
      (read wideContext).delivered? wide = some (some ⟨0x140000001, 0x140000002, 0x140000003,
        0x140000028, 4, 5, [0x140000007]⟩) := by
  have inside : narrow.reader.Inside := ⟨by decide, by decide, fun _ => by decide⟩
  have delivers : (read narrowContext).delivered? narrow = some (some ⟨0x400001, 0x400002,
      0x400003, 0x40001C, 4, 5, [0x400007, 0x400009]⟩) := by decide +kernel
  have inside' : wide.reader.Inside := ⟨by decide, by decide, fun _ => by decide⟩
  have delivers' : (read wideContext).delivered? wide = some (some ⟨0x140000001, 0x140000002,
      0x140000003, 0x140000028, 4, 5, [0x140000007]⟩) := by decide +kernel
  have unhindered : (read narrowContext).Unhindered narrow :=
    costs_read.unhindered (by decide +kernel) (by decide)
  have unhindered' : (read wideContext).Unhindered wide :=
    costs_read.unhindered (by decide +kernel) (by decide)
  exact ⟨inside, unhindered, read_follows_pointers inside unhindered, delivers,
    inside', unhindered', read_follows_pointers inside' unhindered', delivers'⟩

end Tls
end PortableExecutable
