import PortableExecutable.Proofs.Budget.Directories
import PortableExecutable.Proofs.Import.Layout
import PortableExecutable.Proofs.Safety.Import

/-!
Reading imports follows the records. The loop over the thunks of a record ends at their zero, the
loop over the records at the one of zeros, and as long as the bound on imports is out of reach
neither ends before. Both keep count of what they have passed: the words that stand for functions,
and the records that stand and lead to something.
-/

namespace PortableExecutable

theorem Context.placeOf?_lt {ctx : Context} {rva place : Nat}
    (h : ctx.placeOf? rva = some place) : place < 2 ^ 32 := by
  obtain ⟨offset, -, rfl⟩ := Option.map_eq_some_iff.mp h
  exact offset.toNat_lt

namespace Import

open Coupling Layout

variable {ctx : Context} {content : ByteArray} {limits : Limits} {position : Nat}
  {d : ImportDescriptor} {s : Session}

theorem toNat_eq_zero_iff {w : UInt32} : w.toNat = 0 ↔ w = 0 := by
  rw [← UInt32.toNat_inj]
  rfl

/-- The words of a descriptor that has been read. -/
def Words.ofDescriptor (d : ImportDescriptor) : Words where
  lookupTable := d.lookupTable.toNat
  timeDateStamp := d.timeDateStamp.toNat
  forwarderChain := d.forwarderChain.toNat
  nameRva := d.nameRva.toNat
  addressTable := d.addressTable.toNat

theorem ofDescriptor_ofRecord {place : Nat} {r : Record 20} (h : r.StoredAt content place) :
    Words.ofDescriptor (.ofRecord r) = wordsAt content place := by
  simp only [Words.ofDescriptor, ImportDescriptor.ofRecord, h.toNat_u32, wordsAt]

theorem thunkRva_ofDescriptor : (Words.ofDescriptor d).thunkRva = d.thunkRva.toNat := by
  have hZero : d.lookupTable.toNat = 0 ↔ d.lookupTable = 0 := toNat_eq_zero_iff
  rw [Words.thunkRva, ImportDescriptor.thunkRva, apply_ite UInt32.toNat, ite_not]
  exact if_congr hZero rfl rfl

theorem slotAddress_eq {i : Nat} :
    d.slotAddress ctx.headers.imageBase (i * ctx.headers.pointerWidth) =
      slotAddressAt ctx d.addressTable.toNat i := by
  have hZero : d.addressTable = 0 ↔ d.addressTable.toNat = 0 := toNat_eq_zero_iff.symm
  have hTable : d.addressTable.toUInt64 = UInt64.ofNat d.addressTable.toNat :=
    UInt64.toNat_inj.mp (by simp)
  rw [ImportDescriptor.slotAddress, slotAddressAt, ite_not, UInt64.ofNat_add, UInt64.ofNat_add,
    UInt64.ofNat_toNat, ← hTable]
  exact if_congr hZero rfl rfl

theorem judges_readThunk {width offset : Nat} (h : s.Reads content limits position)
    (hWidth : width = 4 ∨ width = 8) :
    Scan.Judges limits (readThunk width offset) s (offset + width ≤ content.size)
      (fun _ => True) fun thunk s' =>
        thunk = number content offset width ∧ s'.Reads content limits position := by
  rw [readThunk]
  obtain rfl | rfl := hWidth
  · rw [if_neg (by decide)]
    refine (ImageScan.judges_recordAt h fun _ => trivial).bind .inr ?_
    intro r s₁ inside hRecord
    exact Scan.judges_pure (by omega) ⟨hRecord.1.toNat_u32 _, hRecord.2.2⟩
  · rw [if_pos rfl]
    refine (ImageScan.judges_recordAt h fun _ => trivial).bind .inr ?_
    intro r s₁ inside hRecord
    exact Scan.judges_pure (by omega) ⟨hRecord.1.toNat_u64 _, hRecord.2.2⟩

theorem judges_readNameRecord {rva : Nat} (h : s.Reads content limits position)
    (covers : limits.CoversAll) :
    Scan.Judges limits (readNameRecord ctx rva) s True (fun _ => True) fun found s' =>
      found = (hintAt? ctx content rva, nameAt? ctx content rva) ∧
        s'.Reads content limits position := by
  rw [readNameRecord]
  refine Context.gives_translateRva.judges_bind fun log => ?_
  cases hPlace : ctx.placeOf? rva with
  | none =>
      simp only [hintAt?, nameAt?, hPlace, Option.bind_none]
      exact Scan.judges_emit_bind fun _ => Scan.judges_pure trivial ⟨rfl, h.of_reader_eq rfl⟩
  | some place =>
      have hLt := Context.placeOf?_lt hPlace
      have h₀ : Session.Reads content limits position ⟨s.reader, log⟩ := h.of_reader_eq rfl
      simp only [hintAt?, nameAt?, hPlace, Option.bind_some]
      refine (ImageScan.judges_attempt_recordAt h₀ covers).bind (fun _ => trivial) ?_
      intro hint s₁ _ hHint
      obtain ⟨attempted, h₁⟩ := hHint
      cases hint with
      | error _ =>
          rw [Record.Attempted] at attempted
          rw [if_neg (by omega), if_neg (by omega)]
          exact Scan.judges_pure trivial ⟨rfl, h₁⟩
      | ok r =>
          obtain ⟨inside, stored⟩ := attempted
          have hHint : r.u16 0 = UInt16.ofNat (number content place 2) := stored.u16_eq _
          refine Scan.judges_sum_bind (by omega) ?_
          refine (ImageScan.judges_attempt_stringAt h₁ covers).bind (fun _ => trivial) ?_
          intro name s₂ _ hName
          rw [if_pos (by omega), ← hName.1, ← hHint]
          exact Scan.judges_pure trivial ⟨rfl, hName.2⟩

theorem judges_readEntry {thunk addressTable i : Nat} (h : s.Reads content limits position)
    (covers : limits.CoversAll) :
    Scan.Judges limits (readEntry ctx thunk (slotAddressAt ctx addressTable i)) s True
      (fun _ => True) fun entry s' =>
        entry = entryAt ctx content addressTable i thunk ∧ s'.Reads content limits position := by
  rw [readEntry, byOrdinal, entryAt, UInt16.ofNat_mod_size]
  split
  case isTrue ordinal => exact Scan.judges_pure trivial ⟨rfl, h⟩
  case isFalse named =>
    refine (judges_readNameRecord h covers).bind (fun _ => trivial) ?_
    intro found s₁ _ hFound
    obtain ⟨rfl, h₁⟩ := hFound
    exact Scan.judges_pure trivial ⟨rfl, h₁⟩

theorem entriesIn_succ {addressTable table count : Nat} :
    entriesIn ctx content addressTable table (count + 1) =
      entriesIn ctx content addressTable table count ++
        [entryAt ctx content addressTable count
          (thunkAt content ctx.headers.pointerWidth table count)] := by
  rw [entriesIn, List.range_succ, List.map_append]
  rfl

/-- Words before the index have been passed, and the room reaches behind all that follow. -/
theorem judges_readEntries {table room index : Nat} (h : s.Reads content limits position)
    (covers : limits.CoversAll) (hPlace : table + index * ctx.headers.pointerWidth < 2 ^ 64)
    (passed : ∀ i < index, NamesFunction content ctx.headers.pointerWidth table i)
    (few : thunkCount content ctx.headers.pointerWidth table < index + room) :
    Scan.Judges limits (readEntries ctx d table room index) s
      (∃ count, ThunksClose content ctx.headers.pointerWidth table count) (fun _ => True)
      fun entries s' =>
        entriesIn ctx content d.addressTable.toNat table index ++ entries =
          entriesIn ctx content d.addressTable.toNat table
            (thunkCount content ctx.headers.pointerWidth table) ∧
        s'.Reads content limits position := by
  have hWidth := ctx.headers.pointerWidth_eq_or
  have positive : 0 < ctx.headers.pointerWidth := by omega
  have hSize := h.size_lt
  induction room generalizing s index with
  | zero =>
      have hCount := le_thunkCount positive passed
      omega
  | succ room ih =>
      have hStop : (index + 1) * ctx.headers.pointerWidth =
          index * ctx.headers.pointerWidth + ctx.headers.pointerWidth := Nat.succ_mul _ _
      refine Scan.judges_sum_bind hPlace ?_
      refine (judges_readThunk h hWidth).bind ?_ ?_
      · rintro ⟨count, closes⟩
        have hEnd : (index + 1) * ctx.headers.pointerWidth ≤
            (count + 1) * ctx.headers.pointerWidth :=
          Nat.mul_le_mul_right _ (Nat.succ_le_succ (closes.le_count passed))
        have inside := closes.inside
        omega
      intro thunk s₁ inside hThunk
      obtain ⟨rfl, h₁⟩ := hThunk
      split
      case isTrue zero =>
        have closes : ThunksClose content ctx.headers.pointerWidth table index :=
          ⟨by omega, zero, fun i hi => (passed i hi).2⟩
        rw [closes.count_eq positive]
        exact Scan.judges_pure ⟨index, closes⟩ ⟨List.append_nil _, h₁⟩
      case isFalse nonzero =>
        have passed' := forall_lt_succ_of_last passed ⟨by omega, nonzero⟩
        rw [slotAddress_eq]
        refine (judges_readEntry h₁ covers).bind (fun _ => trivial) ?_
        intro entry s₂ _ hEntry
        obtain ⟨rfl, h₂⟩ := hEntry
        refine (ih h₂ (by omega) passed' (by omega)).bind id ?_
        intro rest s₃ closes hRest
        refine Scan.judges_pure closes ⟨?_, hRest.2⟩
        rw [← hRest.1, entriesIn_succ, List.append_assoc]
        rfl

theorem judges_readLookupTable {room : Nat} (h : s.Reads content limits position)
    (covers : limits.CoversAll)
    (few : (entriesOf ctx content (.ofDescriptor d)).length < room) :
    Scan.Judges limits (readLookupTable ctx d room) s
      ((Words.ofDescriptor d).thunkRva ≠ 0 →
        ∃ table, ctx.placeOf? (Words.ofDescriptor d).thunkRva = some table ∧
          ∃ count, ThunksClose content ctx.headers.pointerWidth table count)
      (fun _ => True) fun entries s' =>
        entries = entriesOf ctx content (.ofDescriptor d) ∧ s'.Reads content limits position := by
  have hZero : d.thunkRva = 0 ↔ d.thunkRva.toNat = 0 := toNat_eq_zero_iff.symm
  rw [readLookupTable]
  rw [entriesOf, thunkRva_ofDescriptor] at *
  split
  case isTrue absent =>
    rw [if_pos (hZero.mp absent)]
    exact Scan.judges_pure (fun present => absurd (hZero.mp absent) present) ⟨rfl, h⟩
  case isFalse present =>
    have nonzero := mt hZero.mpr present
    rw [if_neg nonzero] at few ⊢
    refine (Context.judges_requireRva h trivial).bind
      (fun resolves => (resolves nonzero).imp fun _ => And.left) ?_
    intro table s₁ _ hTable
    obtain ⟨hPlace, h₁⟩ := hTable
    have hLt := Context.placeOf?_lt hPlace
    simp only [hPlace] at few ⊢
    rw [entriesIn, List.length_map, List.length_range] at few
    refine ((judges_readEntries h₁ covers (by omega) (fun i hi => absurd hi (Nat.not_lt_zero i))
      (by omega)).iff ?_).mono ?_
    · exact ⟨fun closes _ => ⟨table, rfl, closes⟩, fun resolves => by simpa using resolves nonzero⟩
    · exact fun _ _ _ hEntries => hEntries

/-- A record, the text at its name and its entries are the descriptor of its place. -/
theorem descriptorAt_eq {place : Nat} {r : Record 20} (h : r.StoredAt content place) :
    { ImportDescriptor.ofRecord r with
      library := ctx.textAt content (wordsAt content place).nameRva
      entries := entriesOf ctx content (wordsAt content place) } =
      descriptorAt ctx content place := by
  simp only [descriptorAt, ImportDescriptor.ofRecord, h.u32_eq, wordsAt]

theorem isZero_iff {place : Nat} {r : Record 20} (h : r.StoredAt content place) :
    r.isZero = true ↔ ∀ b ∈ bytes content place 20, b = 0 := by
  rw [Record.isZero, ← Array.all_toList, h.bytes_eq, List.all_eq_true]
  simp only [beq_iff_eq]

theorem stands_of_not_isZero {place : Nat} {r : Record 20} (h : r.StoredAt content place)
    (inside : place + 20 ≤ content.size) (nonzero : ¬ r.isZero = true) :
    Stands content place := by
  refine ⟨inside, ?_⟩
  simpa only [isZero_iff h, not_forall, exists_prop] using nonzero

/-- The first records have been passed: they stand, they lead to what the file has, and so many
entries are theirs. -/
structure Passed (ctx : Context) (content : ByteArray) (offset k total : Nat) : Prop where
  stands : ∀ j < k, Stands content (offset + 20 * j)
  resolved : ∀ place ∈ namedPlaces content offset k, Resolves ctx content (wordsAt content place)
  total_eq : total = entryCount content ctx offset k

section Passing

variable {offset k total : Nat}

theorem passed_zero : Passed ctx content offset 0 0 :=
  ⟨fun j hj => absurd hj (Nat.not_lt_zero j), List.forall_mem_nil _, rfl⟩

theorem Passed.nameless (h : Passed ctx content offset k total)
    (stands : Stands content (offset + 20 * k))
    (nameless : (wordsAt content (offset + 20 * k)).nameRva = 0) :
    Passed ctx content offset (k + 1) total := by
  have hPlaces := namedPlaces_succ_of_nameless nameless
  refine ⟨forall_lt_succ_of_last h.stands stands, ?_, ?_⟩
  · rw [hPlaces]
    exact h.resolved
  · rw [entryCount, hPlaces]
    exact h.total_eq

theorem Passed.named (h : Passed ctx content offset k total)
    (stands : Stands content (offset + 20 * k))
    (named : (wordsAt content (offset + 20 * k)).nameRva ≠ 0)
    (resolves : Resolves ctx content (wordsAt content (offset + 20 * k))) :
    Passed ctx content offset (k + 1)
      (total + (entriesOf ctx content (wordsAt content (offset + 20 * k))).length) := by
  refine ⟨forall_lt_succ_of_last h.stands stands, fun place hMem => ?_, ?_⟩
  · rw [namedPlaces_succ_of_named named, List.mem_append, List.mem_singleton] at hMem
    obtain earlier | rfl := hMem
    · exact h.resolved place earlier
    · exact resolves
  · rw [entryCount_succ_of_named named, h.total_eq]

/-- What a readable directory has, a record with a name leads to. -/
theorem Passed.resolves (h : Passed ctx content offset k total)
    (stands : Stands content (offset + 20 * k))
    (named : (wordsAt content (offset + 20 * k)).nameRva ≠ 0)
    (readable : Readable ctx content offset) :
    Resolves ctx content (wordsAt content (offset + 20 * k)) := by
  obtain ⟨count, closes, resolves⟩ := readable
  have hCount := closes.le_count (forall_lt_succ_of_last h.stands stands)
  exact resolves _ (mem_namedPlaces hCount named)

theorem judges_readDescriptors {slots : Nat} (h : s.Reads content limits (offset + 20 * k))
    (covers : limits.CoversAll) (few : FewEntries content ctx offset)
    (hSlots : content.size - (offset + 20 * k) < 20 * slots)
    (passed : Passed ctx content offset k total) :
    Scan.Judges limits (readDescriptors ctx slots total) s (Readable ctx content offset)
      (fun _ => True) fun descriptors _ => ∃ count, RecordsClose content offset count ∧
        (namedPlaces content offset k).map (descriptorAt ctx content) ++ descriptors =
          (namedPlaces content offset count).map (descriptorAt ctx content) := by
  induction slots generalizing s k total with
  | zero => omega
  | succ slots ih =>
      have hNext : offset + 20 * (k + 1) = offset + 20 * k + 20 := by omega
      refine (ImageScan.judges_record h fun _ => trivial).bind ?_ ?_
      · rintro ⟨count, closes, -⟩
        exact closes.inside passed.stands
      intro r s₁ inside hRecord
      obtain ⟨stored, h₁⟩ := hRecord
      rw [← hNext] at h₁
      dsimp only
      split
      case isTrue zero =>
        have closes : RecordsClose content offset k :=
          ⟨⟨inside, (isZero_iff stored).mp zero⟩, passed.stands⟩
        exact Scan.judges_pure ⟨k, closes, passed.resolved⟩ ⟨k, closes, List.append_nil _⟩
      case isFalse nonzero =>
      have stands := stands_of_not_isZero stored inside nonzero
      have hWords := ofDescriptor_ofRecord stored
      have hName : (ImportDescriptor.ofRecord r).nameRva.toNat =
          (wordsAt content (offset + 20 * k)).nameRva := congrArg Words.nameRva hWords
      split
      case isTrue zero =>
        have nameless : (wordsAt content (offset + 20 * k)).nameRva = 0 := by
          rw [← hName, zero]
          rfl
        refine Scan.judges_emit_bind fun log => ?_
        rw [← namedPlaces_succ_of_nameless nameless]
        exact ih (h₁.of_reader_eq rfl) (by omega) (passed.nameless stands nameless)
      case isFalse nonzero =>
        have named : (wordsAt content (offset + 20 * k)).nameRva ≠ 0 := fun zero =>
          nonzero (toNat_eq_zero_iff.mp (hName.trans zero))
        have hFew := few (k + 1) (forall_lt_succ_of_last passed.stands stands)
        have hLimit := ctx.options.maxImports.toNat_lt
        rw [entryCount_succ_of_named named, ← passed.total_eq] at hFew
        refine (Context.judges_stringAtRva h₁ trivial fun _ => trivial).bind
          (fun readable => hName ▸ (passed.resolves stands named readable).name) ?_
        intro library s₂ backed hLibrary
        obtain ⟨rfl, h₂⟩ := hLibrary
        refine (judges_readLookupTable h₂ covers (by rw [hWords]; omega)).bind
          (fun readable => hWords ▸ (passed.resolves stands named readable).thunks) ?_
        intro entries s₃ thunks hEntries
        obtain ⟨rfl, h₃⟩ := hEntries
        rw [hName] at backed ⊢
        rw [hWords] at thunks ⊢
        refine Scan.judges_sum_bind (by omega) ?_
        rw [if_neg (by omega)]
        refine (ih h₃ (by omega) (passed.named stands named ⟨backed, thunks⟩)).bind id ?_
        intro rest s₄ readable hRest
        obtain ⟨count, closes, hDescriptors⟩ := hRest
        refine Scan.judges_pure readable ⟨count, closes, ?_⟩
        rw [← hDescriptors, namedPlaces_succ_of_named named, List.map_append, List.append_assoc,
          descriptorAt_eq stored]
        rfl

end Passing

theorem judges_read (h : s.Reads content limits position) (covers : limits.CoversAll)
    (few : FewEntries content ctx position) :
    Scan.Judges limits (read ctx) s (Readable ctx content position) (fun _ => True)
      fun table _ => Describes ctx content position table := by
  have hSlots : content.size - position < 20 * slotsLeft s.reader := by
    have hCover := slotsCover_slotsLeft s.reader
    rwa [SlotsCover, Reader.size_eq, h.content_eq, h.position_eq] at hCover
  refine Scan.judges_reader_bind ?_
  refine (judges_readDescriptors (k := 0) h covers few hSlots passed_zero).bind id ?_
  intro descriptors s₁ readable hDescriptors
  exact Scan.judges_emit_bind fun _ => Scan.judges_pure readable hDescriptors

/-- Imports are read where the records are closed and lead to what the file has, and they are what
the records stand for. -/
theorem read_follows_records (inside : s.reader.Inside) (unrefused : (read ctx).Unrefused s)
    (few : FewEntries s.reader.content ctx s.reader.position) :
    (read ctx).Verdict s (Readable ctx s.reader.content s.reader.position)
      (Describes ctx s.reader.content s.reader.position) := by
  have respects : (read ctx).Respects untilRefused :=
    respects_read lawful_untilRefused recovers_untilRefused
  have judged := judges_read (s.reads_withLargestBudget inside) s.coversAll_withLargestBudget few
  exact unrefused.verdict inside respects safe_read judged

/-- Four records. The first has a table of its own, with an ordinal and a name; the second has no
name; the third has its thunk in the address table, with a name behind the end of the file; the
fourth has no thunks. -/
def fourRecords : Session where
  reader :=
    { label := "memory"
      content := ⟨#[0, 0, 0, 0,
        104, 0, 0, 0, 1, 0, 0, 0, 0, 0, 0, 0, 124, 0, 0, 0, 200, 0, 0, 0,
        0, 0, 0, 0, 9, 0, 0, 0, 0, 0, 0, 0, 0, 0, 0, 0, 0, 0, 0, 0,
        0, 0, 0, 0, 0, 0, 0, 0, 0, 0, 0, 0, 126, 0, 0, 0, 116, 0, 0, 0,
        0, 0, 0, 0, 0, 0, 0, 0, 0, 0, 0, 0, 126, 0, 0, 0, 0, 0, 0, 0,
        0, 0, 0, 0, 0, 0, 0, 0, 0, 0, 0, 0, 0, 0, 0, 0, 0, 0, 0, 0,
        7, 0, 0, 0x80, 128, 0, 0, 0, 0, 0, 0, 0, 130, 0, 0, 0, 0, 0, 0, 0,
        97, 0, 98, 0, 7, 0, 102, 0]⟩
      limits := {}
      position := 4 }

theorem fewEntries_fourRecords :
    FewEntries fourRecords.reader.content ⟨{}, {}⟩ fourRecords.reader.position := by
  have closing : ¬ Stands fourRecords.reader.content (4 + 20 * 4) := by decide +kernel
  have few : ∀ count < 5,
      entryCount fourRecords.reader.content ⟨{}, {}⟩ 4 count < 10000 := by decide +kernel
  intro count stands
  exact few count (Nat.lt_of_not_le fun behind => closing (stands 4 behind))

theorem read_follows_records_fourRecords :
    let ctx : Context := ⟨{}, {}⟩
    fourRecords.reader.Inside ∧ (read ctx).Unrefused fourRecords ∧
      FewEntries fourRecords.reader.content ctx fourRecords.reader.position ∧
      (read ctx).Verdict fourRecords
        (Readable ctx fourRecords.reader.content fourRecords.reader.position)
        (Describes ctx fourRecords.reader.content fourRecords.reader.position) ∧
      ((read ctx).delivered? fourRecords).map
          (·.descriptors.map fun d => (d.library, d.entries)) =
        some [("a", [⟨none, some 7, none, 200⟩, ⟨some "f", none, some 7, 204⟩]),
          ("b", [⟨none, none, some 102, 116⟩]), ("b", [])] := by
  intro ctx
  have inside : fourRecords.reader.Inside :=
    ⟨by decide +kernel, by decide +kernel, fun _ => by decide⟩
  have hTables : ((read ctx).delivered? fourRecords).map
      (·.descriptors.map fun d => (d.library, d.entries)) =
        some [("a", [⟨none, some 7, none, 200⟩, ⟨some "f", none, some 7, 204⟩]),
          ("b", [⟨none, none, some 102, 116⟩]), ("b", [])] := by decide +kernel
  have unrefused : (read ctx).Unrefused fourRecords :=
    costs_read.unrefused (by decide +kernel) (by decide) costs_read
  exact ⟨inside, unrefused, fewEntries_fourRecords,
    read_follows_records inside unrefused fewEntries_fourRecords, hTables⟩

end Import
end PortableExecutable
