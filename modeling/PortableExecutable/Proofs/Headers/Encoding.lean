import PortableExecutable.Proofs.Headers.Stages

/-!
The headers as bytes. Encoding writes every field at its width, least significant byte first, in
the order of the layout; named codes go back to their numbers. What was decoded from a record
encodes to the bytes of that record, so no field is lost, narrowed, or read at another's place.
-/

namespace PortableExecutable

def Machine.code : Machine → UInt16
  | unknown => 0
  | i386 => 0x014c
  | x86_64 => 0x8664
  | arm => 0x01c0
  | arm64 => 0xaa64
  | armNT => 0x01c4
  | ia64 => 0x0200
  | ebc => 0x0ebc
  | other code => code

/-- Naming a number loses nothing, since a number without a name is kept as it is. -/
theorem Machine.code_ofCode (code : UInt16) : (ofCode code).code = code := by
  rw [ofCode]
  split
  case h_9 => rfl
  all_goals exact (UInt16.toNat_inj.mp ‹_›).symm

def Subsystem.code : Subsystem → UInt16
  | unknown => 0
  | native => 1
  | windowsGui => 2
  | windowsCui => 3
  | os2Cui => 5
  | posixCui => 7
  | windowsCeGui => 9
  | efiApplication => 10
  | efiBootServiceDriver => 11
  | efiRuntimeDriver => 12
  | efiRom => 13
  | xbox => 14
  | windowsBootApplication => 16
  | other code => code

theorem Subsystem.code_ofCode (code : UInt16) : (ofCode code).code = code := by
  rw [ofCode]
  split
  case h_14 => rfl
  all_goals exact (UInt16.toNat_inj.mp ‹_›).symm

namespace Layout

def ofWord16 (w : UInt16) : List UInt8 := LittleEndian.encode 2 w.toNat

def ofWord32 (w : UInt32) : List UInt8 := LittleEndian.encode 4 w.toNat

/-- Words one after the other, as a file stores an array of them. -/
def ofWords16 {count : Nat} (words : Vector UInt16 count) : List UInt8 :=
  words.toList.flatMap ofWord16

def ofWord64 (w : UInt64) : List UInt8 := LittleEndian.encode 8 w.toNat

theorem ofWord16_injective {w w' : UInt16} (h : ofWord16 w = ofWord16 w') : w = w' :=
  UInt16.toNat_inj.mp (LittleEndian.encode_injective w.toNat_lt w'.toNat_lt h)

theorem ofWord32_injective {w w' : UInt32} (h : ofWord32 w = ofWord32 w') : w = w' :=
  UInt32.toNat_inj.mp (LittleEndian.encode_injective w.toNat_lt w'.toNat_lt h)

@[simp] theorem length_ofWord16 (w : UInt16) : (ofWord16 w).length = 2 :=
  LittleEndian.length_encode 2 w.toNat

@[simp] theorem length_ofWord32 (w : UInt32) : (ofWord32 w).length = 4 :=
  LittleEndian.length_encode 4 w.toNat

theorem length_flatMap_ofWord16 (words : List UInt16) :
    (words.flatMap ofWord16).length = 2 * words.length := by
  induction words with
  | nil => rfl
  | cons w rest ih =>
      rw [List.flatMap_cons, List.length_append, ih, length_ofWord16, List.length_cons]
      omega

/-- All words are equally wide, and so their bytes need no separators. -/
theorem flatMap_ofWord16_injective {words words' : List UInt16}
    (h : words.flatMap ofWord16 = words'.flatMap ofWord16) : words = words' := by
  induction words generalizing words' with
  | nil =>
      have hLength := congrArg List.length h
      rw [length_flatMap_ofWord16, length_flatMap_ofWord16, List.length_nil] at hLength
      exact (List.eq_nil_of_length_eq_zero (by omega)).symm
  | cons w rest ih =>
      cases words' with
      | nil => cases h
      | cons w' rest' =>
          rw [List.flatMap_cons, List.flatMap_cons] at h
          obtain ⟨hWord, hRest⟩ := List.append_inj h (by simp)
          rw [ofWord16_injective hWord, ih hRest]

end Layout

open Layout

namespace Record

variable {width : Nat} (r : Record width) {i : Nat}

@[simp] theorem ofByte_u8 (h : fits i 1 width = true) : [r.u8 i h] = r.field i 1 h := by
  rw [field, List.ofFn_succ, List.ofFn_zero]
  rfl

@[simp] theorem ofWord16_u16 (h : fits i 2 width = true) :
    ofWord16 (r.u16 i h) = r.field i 2 h := by
  have hBytes := LittleEndian.encode_decode (r.field i 2 h)
  rwa [length_field, ← toNat_u16] at hBytes

@[simp] theorem ofWord32_u32 (h : fits i 4 width = true) :
    ofWord32 (r.u32 i h) = r.field i 4 h := by
  have hBytes := LittleEndian.encode_decode (r.field i 4 h)
  rwa [length_field, ← toNat_u32] at hBytes

@[simp] theorem ofWord64_u64 (h : fits i 8 width = true) :
    ofWord64 (r.u64 i h) = r.field i 8 h := by
  have hBytes := LittleEndian.encode_decode (r.field i 8 h)
  rwa [length_field, ← toNat_u64] at hBytes

theorem fits_next {count : Nat} (h : fits i (2 * (count + 1)) width = true) :
    fits i 2 width = true ∧ fits (i + 2) (2 * count) width = true := by
  have hEnd := fits_iff.mp h
  exact ⟨fits_iff.mpr (by omega), fits_iff.mpr (by omega)⟩

theorem toList_words_succ {count : Nat} (h : fits i (2 * (count + 1)) width = true) :
    (r.words i (count + 1) h).toList =
      r.u16 i (fits_next h).1 :: (r.words (i + 2) count (fits_next h).2).toList := by
  simp only [words, Vector.toList_ofFn, List.ofFn_succ]
  simp only [Fin.val_zero, Fin.val_succ, Nat.mul_zero, Nat.add_zero, Nat.mul_succ, Nat.add_assoc,
    Nat.add_comm 2]

@[simp] theorem ofWords16_words {count : Nat} (h : fits i (2 * count) width = true) :
    ofWords16 (r.words i count h) = r.field i (2 * count) h := by
  induction count generalizing i with
  | zero => rfl
  | succ count ih =>
      have hRest := ih (fits_next h).2
      rw [ofWords16] at hRest ⊢
      rw [toList_words_succ, List.flatMap_cons, hRest, ofWord16_u16, field_append _ _ _ rfl]
      simp only [Nat.mul_succ, Nat.add_comm 2]

/-- A table is the record of its words from the first on. -/
theorem table16_eq_words {count : Nat} (r : Record (count * 2)) :
    r.table16 = (r.words 0 count (fits_iff.mpr (by omega))).toList := by
  simp only [table16, words, Vector.toList_ofFn, Nat.zero_add]

theorem StoredAt.table16 {count : Nat} {r : Record (count * 2)} {content : ByteArray}
    {offset : Nat} (h : r.StoredAt content offset) :
    r.table16.flatMap Layout.ofWord16 = Layout.bytes content offset (2 * count) := by
  have whole : fits 0 (2 * count) (count * 2) = true := fits_iff.mpr (by omega)
  rw [table16_eq_words]
  exact (r.ofWords16_words whole).trans (h.field whole)

end Record

def DosHeader.encode (d : DosHeader) : List UInt8 :=
  [d.magic.toList, ofWord16 d.bytesOnLastPage, ofWord16 d.pages, ofWord16 d.relocations,
    ofWord16 d.headerParagraphs, ofWord16 d.minExtraParagraphs, ofWord16 d.maxExtraParagraphs,
    ofWord16 d.initialSs, ofWord16 d.initialSp, ofWord16 d.checksum, ofWord16 d.initialIp,
    ofWord16 d.initialCs, ofWord16 d.relocationTableOffset, ofWord16 d.overlayNumber,
    ofWords16 d.reserved, ofWord16 d.oemId, ofWord16 d.oemInfo, ofWords16 d.reserved2,
    ofWord32 d.peHeaderOffset].flatten

/-- Nothing of the record is left out, and neighbouring fields join until they are all of it. -/
theorem DosHeader.encode_ofRecord (r : Record 64) :
    (ofRecord r).encode = r.bytes.data.toList := by
  simp only [encode, ofRecord, List.flatten_cons, List.flatten_nil, List.append_nil,
    Record.toList_raw, Record.ofWord16_u16, Record.ofWord32_u32, Record.ofWords16_words,
    Nat.reduceMul, Record.field_append, Nat.reduceAdd]
  exact r.field_whole _

def PeHeader.encode (h : PeHeader) : List UInt8 :=
  [h.signature.toList, ofWord16 h.machine.code, ofWord16 h.numberOfSections,
    ofWord32 h.timeDateStamp, ofWord32 h.pointerToSymbolTable, ofWord32 h.numberOfSymbols,
    ofWord16 h.sizeOfOptionalHeader, ofWord16 h.characteristics].flatten

theorem PeHeader.encode_ofRecord (r : Record 24) :
    (ofRecord r).encode = r.bytes.data.toList := by
  simp only [encode, ofRecord, List.flatten_cons, List.flatten_nil, List.append_nil,
    Machine.code_ofCode, Record.toList_raw, Record.ofWord16_u16, Record.ofWord32_u32]
  simp only [Record.field_append, Nat.reduceAdd]
  exact r.field_whole _

def OptionalHeaderCommon.encode (c : OptionalHeaderCommon) : List UInt8 :=
  [ofWord16 c.magic, [c.majorLinkerVersion], [c.minorLinkerVersion], ofWord32 c.sizeOfCode,
    ofWord32 c.sizeOfInitializedData, ofWord32 c.sizeOfUninitializedData,
    ofWord32 c.addressOfEntryPoint, ofWord32 c.baseOfCode].flatten

theorem OptionalHeaderCommon.encode_ofRecord (r : Record 24) :
    (ofRecord r).encode = r.bytes.data.toList := by
  simp only [encode, ofRecord, List.flatten_cons, List.flatten_nil, List.append_nil,
    Record.ofByte_u8, Record.ofWord16_u16, Record.ofWord32_u32, Record.field_append, Nat.reduceAdd]
  exact r.field_whole _

def WindowsFields.encode (w : WindowsFields) : List UInt8 :=
  [ofWord32 w.sectionAlignment, ofWord32 w.fileAlignment,
    ofWord16 w.majorOperatingSystemVersion, ofWord16 w.minorOperatingSystemVersion,
    ofWord16 w.majorImageVersion, ofWord16 w.minorImageVersion,
    ofWord16 w.majorSubsystemVersion, ofWord16 w.minorSubsystemVersion,
    ofWord32 w.win32VersionValue, ofWord32 w.sizeOfImage, ofWord32 w.sizeOfHeaders,
    ofWord32 w.checksum, ofWord16 w.subsystem.code, ofWord16 w.dllCharacteristics].flatten

theorem WindowsFields.encode_ofRecord (r : Record 40) :
    (ofRecord r).encode = r.bytes.data.toList := by
  simp only [encode, ofRecord, List.flatten_cons, List.flatten_nil, List.append_nil,
    Subsystem.code_ofCode, Record.ofWord16_u16, Record.ofWord32_u32, Record.field_append,
    Nat.reduceAdd]
  exact r.field_whole _

def OptionalHeader32.encode (h : OptionalHeader32) : List UInt8 :=
  [h.common.encode, [ofWord32 h.baseOfData, ofWord32 h.imageBase].flatten, h.windows.encode,
    [ofWord32 h.sizeOfStackReserve, ofWord32 h.sizeOfStackCommit, ofWord32 h.sizeOfHeapReserve,
      ofWord32 h.sizeOfHeapCommit, ofWord32 h.loaderFlags,
      ofWord32 h.numberOfRvaAndSizes].flatten].flatten

/-- The header is read in four records, and its bytes are theirs one after the other. -/
theorem OptionalHeader32.encode_of_storedAt {content : ByteArray} {offset : Nat}
    {h : OptionalHeader32} (stored : h.StoredAt content offset) :
    h.encode = bytes content offset 96 := by
  obtain ⟨common, bases, shared, reserves, hCommon, hBases, hShared, hReserves, rfl⟩ := stored
  simp only [encode, ofRecords, List.flatten_cons, List.flatten_nil, List.append_nil,
    OptionalHeaderCommon.encode_ofRecord, WindowsFields.encode_ofRecord, Record.ofWord32_u32,
    Record.field_append, Nat.reduceAdd]
  rw [bases.field_whole, reserves.field_whole, hCommon.bytes_eq, hBases.bytes_eq, hShared.bytes_eq,
    hReserves.bytes_eq, bytes_append, bytes_append (offset + 24) 8, bytes_append offset 24]

def OptionalHeader64.encode (h : OptionalHeader64) : List UInt8 :=
  [h.common.encode, ofWord64 h.imageBase, h.windows.encode,
    [ofWord64 h.sizeOfStackReserve, ofWord64 h.sizeOfStackCommit, ofWord64 h.sizeOfHeapReserve,
      ofWord64 h.sizeOfHeapCommit, ofWord32 h.loaderFlags,
      ofWord32 h.numberOfRvaAndSizes].flatten].flatten

theorem OptionalHeader64.encode_of_storedAt {content : ByteArray} {offset : Nat}
    {h : OptionalHeader64} (stored : h.StoredAt content offset) :
    h.encode = bytes content offset 112 := by
  obtain ⟨common, imageBase, shared, reserves, hCommon, hBase, hShared, hReserves, rfl⟩ := stored
  simp only [encode, ofRecords, List.flatten_cons, List.flatten_nil, List.append_nil,
    OptionalHeaderCommon.encode_ofRecord, WindowsFields.encode_ofRecord, Record.ofWord32_u32,
    Record.ofWord64_u64, Record.field_append, Nat.reduceAdd]
  rw [imageBase.field_whole, reserves.field_whole, hCommon.bytes_eq, hBase.bytes_eq,
    hShared.bytes_eq, hReserves.bytes_eq, bytes_append, bytes_append (offset + 24) 8,
    bytes_append offset 24]

def DataDirectory.encode (d : DataDirectory) : List UInt8 :=
  ofWord32 d.virtualAddress ++ ofWord32 d.size

theorem DataDirectory.encode_ofRecord (r : Record 8) :
    (ofRecord r).encode = r.bytes.data.toList := by
  simp only [encode, ofRecord, Record.ofWord32_u32, Record.field_append, Nat.reduceAdd]
  exact r.field_whole _

/-- The name is stored at its full width, with whatever follows its first zero. -/
def Section.encode (s : Section) : List UInt8 :=
  [s.storedName.toList, ofWord32 s.virtualSize, ofWord32 s.virtualAddress,
    ofWord32 s.sizeOfRawData, ofWord32 s.pointerToRawData, ofWord32 s.pointerToRelocations,
    ofWord32 s.pointerToLineNumbers, ofWord16 s.numberOfRelocations,
    ofWord16 s.numberOfLineNumbers, ofWord32 s.characteristics].flatten

theorem Section.encode_ofRecord (r : Record 40) :
    (ofRecord r).encode = r.bytes.data.toList := by
  simp only [encode, ofRecord, List.flatten_cons, List.flatten_nil, List.append_nil,
    Record.toList_raw, Record.ofWord16_u16, Record.ofWord32_u32, Record.field_append,
    Nat.reduceAdd]
  exact r.field_whole _

end PortableExecutable
