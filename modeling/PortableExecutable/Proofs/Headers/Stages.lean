import PortableExecutable.Proofs.Headers.Verdict

/-!
The header stages, one after the other. Each one fails as the layout of the file demands, and what
it delivers was decoded from records that are stored at the places which the layout names.
-/

namespace PortableExecutable

/-- Items that were decoded from consecutive records of one width. -/
def StoredFrom {α : Type} {width : Nat} (decode : Record width → α) (content : ByteArray) :
    Nat → List α → Prop
  | _, [] => True
  | offset, a :: rest =>
    (∃ r : Record width, r.StoredAt content offset ∧ a = decode r) ∧
      StoredFrom decode content (offset + width) rest

theorem StoredFrom.getElem {α : Type} {width : Nat} {decode : Record width → α}
    {content : ByteArray} {offset : Nat} {items : List α}
    (h : StoredFrom decode content offset items) (k : Nat) (hk : k < items.length) :
    ∃ r : Record width, r.StoredAt content (offset + width * k) ∧ items[k] = decode r := by
  induction items generalizing offset k with
  | nil => exact absurd hk (Nat.not_lt_zero k)
  | cons a rest ih =>
      cases k with
      | zero => exact h.1
      | succ k =>
          have hPlace : offset + width * (k + 1) = offset + width + width * k := by
            rw [Nat.mul_succ]
            omega
          rw [hPlace]
          exact ih h.2 k (Nat.lt_of_succ_lt_succ hk)

/-- The fixed part of a 32-bit header was decoded from its four records. -/
def OptionalHeader32.StoredAt (content : ByteArray) (offset : Nat) (h : OptionalHeader32) :
    Prop :=
  ∃ (common : Record 24) (bases : Record 8) (shared : Record 40) (reserves : Record 24),
    common.StoredAt content offset ∧ bases.StoredAt content (offset + 24) ∧
      shared.StoredAt content (offset + 32) ∧ reserves.StoredAt content (offset + 72) ∧
        h = ofRecords (OptionalHeaderCommon.ofRecord common) bases shared reserves

/-- The fixed part of a 64-bit header was decoded from its four records. -/
def OptionalHeader64.StoredAt (content : ByteArray) (offset : Nat) (h : OptionalHeader64) :
    Prop :=
  ∃ (common : Record 24) (imageBase : Record 8) (shared : Record 40) (reserves : Record 40),
    common.StoredAt content offset ∧ imageBase.StoredAt content (offset + 24) ∧
      shared.StoredAt content (offset + 32) ∧ reserves.StoredAt content (offset + 72) ∧
        h = ofRecords (OptionalHeaderCommon.ofRecord common) (imageBase.u64 0) shared reserves

/-- A fixed part in the shape that the file's magic number selects. -/
def OptionalHeader.FixedStored (content : ByteArray) (offset : Nat) (h : OptionalHeader) : Prop :=
  Layout.magic content = 0x10B ∧ (∃ h32, h = pe32 h32 ∧ h32.StoredAt content offset) ∨
    Layout.magic content = 0x20B ∧ ∃ h64, h = pe32Plus h64 ∧ h64.StoredAt content offset

/-- An optional header with its directories, or none where the file declares none. -/
def OptionalStored (content : ByteArray) (header : OptionalHeader)
    (directories : List DataDirectory) : Prop :=
  (Layout.optionalSize content = 0 → header = .absent ∧ directories = []) ∧
    (Layout.optionalSize content ≠ 0 →
      header.FixedStored content (Layout.optionalOffset content) ∧
        directories.length = Layout.directoryCount content ∧
          StoredFrom DataDirectory.ofRecord content
            (Layout.optionalOffset content + Layout.fixedSize content) directories)

/-- Headers that say what the file says: each part in the shape and in the number that the file
declares, decoded from the place where the file has it. -/
structure Headers.StoredIn (content : ByteArray) (h : Headers) : Prop where
  dos : ∃ r : Record 64, r.StoredAt content 0 ∧ h.dos = DosHeader.ofRecord r
  pe : ∃ r : Record 24, r.StoredAt content (Layout.peOffset content) ∧ h.pe = PeHeader.ofRecord r
  optional : OptionalStored content h.optional h.directories
  sections : h.sections.sections.length = Layout.sectionCount content ∧
    StoredFrom Section.ofRecord content (Layout.sectionOffset content) h.sections.sections

namespace Headers

variable {content : ByteArray} {limits : Limits} {offset spent : Nat} {s : Session}

theorem decides_dos (h : s.Stands content limits offset 0) :
    Decides limits DosHeader.read s (Layout.dosFailure? content) fun dos s' =>
      (∃ r : Record 64, r.StoredAt content 0 ∧ dos = DosHeader.ofRecord r) ∧
        s'.Stands content limits 64 64 := by
  refine (decides_reader h).bind_none ?_
  intro r s₁ hReader
  obtain ⟨hSize, _, h₁⟩ := hReader
  dsimp only
  rw [hSize]
  refine decides_ite Iff.rfl (fun _ => decides_fail) ?_
  intro large
  refine (decides_seek_start h₁).bind_none ?_
  intro _ s₂ h₂
  refine (decides_record_of_le h₂ (by decide) (by omega)).bind_none ?_
  intro r s₃ hStored
  have hMagic : (DosHeader.ofRecord r).magic = Layout.raw content 0 2 := hStored.1.raw rfl
  rw [hMagic]
  refine decides_ite (Layout.raw_eq_iff (by omega)) ?_ (fun _ => decides_fail)
  intro _
  exact decides_pure ⟨⟨r, hStored.1, rfl⟩, hStored.2⟩

theorem decides_pe {dos : DosHeader} (h : s.Stands content limits offset 64)
    (hPlace : dos.peHeaderOffset.toNat = Layout.peOffset content) :
    Decides limits (PeHeader.read dos) s (Layout.peFailure? content) fun pe s' =>
      (∃ r : Record 24, r.StoredAt content (Layout.peOffset content) ∧
        pe = PeHeader.ofRecord r) ∧
        s'.Stands content limits (Layout.peOffset content + 24) 88 := by
  rw [PeHeader.read, hPlace]
  refine (decides_reach h).bind ?_
  intro _ s₁ _ h₁
  refine (decides_record h₁ (by decide)).bind ?_
  intro r s₂ whole hStored
  have inside := Layout.cut?_eq_none_iff.mp whole
  have hSignature : (PeHeader.ofRecord r).signature =
      Layout.raw content (Layout.peOffset content) 4 := by
    rw [PeHeader.ofRecord, hStored.1.raw, Nat.add_zero]
  dsimp only
  rw [hSignature]
  refine decides_ite (Layout.raw_eq_iff (by omega)) ?_ (fun _ => decides_fail)
  intro _
  exact decides_pure ⟨⟨r, hStored.1, rfl⟩, hStored.2⟩

/-- What reading consecutive records of one width leaves behind. -/
def ItemsRead {α : Type} {width : Nat} (decode : Record width → α) (content : ByteArray)
    (limits : Limits) (offset spent count : Nat) (items : List α) (s : Session) : Prop :=
  items.length = count ∧ StoredFrom decode content offset items ∧
    s.Stands content limits (offset + width * count) (spent + width * count)

/-- One more item in front of those that the rest reads. -/
theorem decides_item {α : Type} {width count : Nat} {piece : Piece} {rest : ImageScan (List α)}
    (decode : Record width → α) (event : α → Event) (h : s.Stands content limits offset spent)
    (cost : spent + width ≤ largestCost)
    (hRest : ∀ s', s'.Stands content limits (offset + width) (spent + width) →
      Decides limits rest s' (Layout.cutAmong? content piece width (offset + width) count)
        (ItemsRead decode content limits (offset + width) (spent + width) count)) :
    Decides limits
      (do let a := decode (← ImageScan.reading piece (Read.record width))
          Scan.emit (event a)
          return a :: (← rest))
      s (Layout.cutAmong? content piece width offset (count + 1))
      (ItemsRead decode content limits offset spent (count + 1)) := by
  refine (decides_record h cost).bind ?_
  intro r s₁ _ hStored
  refine (decides_emit hStored.2).bind_none ?_
  intro _ s₂ h₂
  refine (hRest s₂ h₂).bind_pure ?_
  intro items s₃ _ hRead
  obtain ⟨hLength, hItems, h₃⟩ := hRead
  refine ⟨congrArg (· + 1) hLength, ⟨⟨r, hStored.1, rfl⟩, hItems⟩, ?_⟩
  rw [Nat.mul_succ, Nat.add_comm (width * count), ← Nat.add_assoc, ← Nat.add_assoc]
  exact h₃

theorem decides_directories {index count : Nat} (h : s.Stands content limits offset spent)
    (cost : spent + 8 * count ≤ largestCost) :
    Decides limits (DataDirectory.readMany index count) s
      (Layout.cutAmong? content .dataDirectory 8 offset count)
      (ItemsRead DataDirectory.ofRecord content limits offset spent count) := by
  induction count generalizing s index offset spent with
  | zero => exact decides_pure ⟨rfl, True.intro, h⟩
  | succ count ih =>
      apply decides_item DataDirectory.ofRecord
        (fun d => .dataDirectoryRead index d.virtualAddress.toNat d.size.toNat) h (by omega)
      intro s' h'
      exact ih h' (by omega)

theorem decides_sections {index count : Nat} (h : s.Stands content limits offset spent)
    (cost : spent + 40 * count ≤ largestCost) :
    Decides limits (SectionTable.readMany index count) s
      (Layout.cutAmong? content .sectionHeader 40 offset count)
      (ItemsRead Section.ofRecord content limits offset spent count) := by
  induction count generalizing s index offset spent with
  | zero => exact decides_pure ⟨rfl, True.intro, h⟩
  | succ count ih =>
      apply decides_item Section.ofRecord
        (fun a => .sectionHeaderRead index a.name a.virtualAddress.toNat a.virtualSize.toNat
          a.pointerToRawData.toNat a.sizeOfRawData.toNat) h (by omega)
      intro s' h'
      exact ih h' (by omega)

theorem decides_read32 {common : Record 24} (h : s.Stands content limits (offset + 24) spent)
    (cost : spent + 72 ≤ largestCost) (hCommon : common.StoredAt content offset) :
    Decides limits (OptionalHeader.read32 (OptionalHeaderCommon.ofRecord common)) s
      ((Layout.cut? content .optionalHeader32 (offset + 24) 8).or <|
        (Layout.cut? content .optionalHeaderShared (offset + 32) 40).or <|
          Layout.cut? content .reserves32 (offset + 72) 24)
      fun header s' => (∃ h32, header = .pe32 h32 ∧ h32.StoredAt content offset) ∧
        s'.Stands content limits (offset + 96) (spent + 72) := by
  refine (decides_record h (by omega)).bind ?_
  intro bases s₁ _ hBases
  refine (decides_record hBases.2 (by omega)).bind ?_
  intro shared s₂ _ hShared
  refine (decides_record hShared.2 (by omega)).bind_pure ?_
  intro reserves s₃ _ hReserves
  exact ⟨⟨_, rfl, common, bases, shared, reserves, hCommon, hBases.1, hShared.1, hReserves.1,
    rfl⟩, hReserves.2⟩

theorem decides_read64 {common : Record 24} (h : s.Stands content limits (offset + 24) spent)
    (cost : spent + 88 ≤ largestCost) (hCommon : common.StoredAt content offset) :
    Decides limits (OptionalHeader.read64 (OptionalHeaderCommon.ofRecord common)) s
      ((Layout.cut? content .optionalHeader64 (offset + 24) 8).or <|
        (Layout.cut? content .optionalHeaderShared (offset + 32) 40).or <|
          Layout.cut? content .reserves64 (offset + 72) 40)
      fun header s' => (∃ h64, header = .pe32Plus h64 ∧ h64.StoredAt content offset) ∧
        s'.Stands content limits (offset + 112) (spent + 88) := by
  refine (decides_word64 h (by omega)).bind ?_
  intro word s₁ _ hWord
  obtain ⟨⟨imageBase, hBase, rfl⟩, h₁⟩ := hWord
  refine (decides_record h₁ (by omega)).bind ?_
  intro shared s₂ _ hShared
  refine (decides_record hShared.2 (by omega)).bind_pure ?_
  intro reserves s₃ _ hReserves
  exact ⟨⟨_, rfl, common, imageBase, shared, reserves, hCommon, hBase, hShared.1, hReserves.1,
    rfl⟩, hReserves.2⟩

theorem decides_fixed (h : s.Stands content limits (Layout.optionalOffset content) 88) :
    Decides limits OptionalHeader.readFixed s
      (Layout.fixedFailure? content (Layout.optionalOffset content)) fun header s' =>
        header.FixedStored content (Layout.optionalOffset content) ∧
          s'.Stands content limits
            (Layout.optionalOffset content + Layout.fixedSize content) 200 := by
  refine (decides_record h (by decide)).bind ?_
  intro r s₁ _ hStored
  have hMagic : (OptionalHeaderCommon.ofRecord r).magic.toNat = Layout.magic content :=
    hStored.1.toNat_u16 rfl
  have selects (word : UInt16) :
      (OptionalHeaderCommon.ofRecord r).magic = word ↔ Layout.magic content = word.toNat := by
    rw [← hMagic, UInt16.toNat_inj]
  dsimp only
  refine decides_ite (selects OptionalHeader.magic32) ?_ ?_
  · intro narrow
    have hSize : Layout.fixedSize content = 96 := by
      rw [Layout.fixedSize, narrow]
      rfl
    rw [hSize]
    refine (decides_read32 hStored.2 (by decide) hStored.1).mono ?_
    intro header s₂ _ hRead
    exact ⟨.inl ⟨narrow, hRead.1⟩, hRead.2.weaken (by omega)⟩
  · intro _
    refine decides_ite (selects OptionalHeader.magic64) ?_ ?_
    · intro wide
      have hSize : Layout.fixedSize content = 112 := if_pos wide
      rw [hSize]
      refine (decides_read64 hStored.2 (by decide) hStored.1).mono ?_
      intro header s₂ _ hRead
      exact ⟨.inr ⟨wide, hRead.1⟩, hRead.2⟩
    · intro _
      rw [← hMagic, UInt16.ofNat_toNat]
      exact decides_fail

/-- The last word of the fixed part is the declared number of directories. -/
theorem numberOfRvaAndSizes_of_fixedStored {header : OptionalHeader}
    (h : header.FixedStored content offset) :
    header.numberOfRvaAndSizes.toNat =
      Layout.number content (offset + Layout.fixedSize content - 4) 4 := by
  cases h with
  | inl narrow =>
      obtain ⟨hMagic, h32, rfl, _, _, _, reserves, _, _, _, hReserves, rfl⟩ := narrow
      have hSize : offset + Layout.fixedSize content - 4 = offset + 72 + 20 := by
        rw [Layout.fixedSize, hMagic]
        rfl
      rw [hSize]
      exact hReserves.toNat_u32 rfl
  | inr wide =>
      obtain ⟨hMagic, h64, rfl, _, _, _, reserves, _, _, _, hReserves, rfl⟩ := wide
      have hSize : offset + Layout.fixedSize content - 4 = offset + 72 + 36 := by
        rw [Layout.fixedSize, hMagic]
        rfl
      rw [hSize]
      exact hReserves.toNat_u32 rfl

theorem decides_declared {header : OptionalHeader} (h : s.Stands content limits offset 200)
    (hCount : min header.numberOfRvaAndSizes.toNat 16 = Layout.directoryCount content) :
    Decides limits header.readDirectories s
      (Layout.cutAmong? content .dataDirectory 8 offset (Layout.directoryCount content))
      fun directories s' =>
        (directories.length = Layout.directoryCount content ∧
          StoredFrom DataDirectory.ofRecord content offset directories) ∧
        s'.Stands content limits (offset + 8 * Layout.directoryCount content) 328 := by
  have hAtMost : Layout.directoryCount content ≤ 16 := Nat.min_le_right _ _
  have listed {s : Session} (h : s.Stands content limits offset 200) :
      Decides limits (DataDirectory.readMany 0 (Layout.directoryCount content)) s
        (Layout.cutAmong? content .dataDirectory 8 offset (Layout.directoryCount content))
        fun directories s' =>
          (directories.length = Layout.directoryCount content ∧
            StoredFrom DataDirectory.ofRecord content offset directories) ∧
          s'.Stands content limits (offset + 8 * Layout.directoryCount content) 328 := by
    have cost : 200 + 8 * Layout.directoryCount content ≤ 328 := by omega
    refine (decides_directories h (Nat.le_trans cost (by decide))).mono ?_
    intro directories s' _ hRead
    exact ⟨⟨hRead.1, hRead.2.1⟩, hRead.2.2.weaken cost⟩
  rw [OptionalHeader.readDirectories]
  simp only [DataDirectory.maxCount, hCount]
  by_cases many : 16 < header.numberOfRvaAndSizes.toNat
  · rw [if_pos many]
    exact (decides_emit h).bind_none fun _ _ h' => listed h'
  · rw [if_neg many]
    exact listed h

theorem decides_optional {dos : DosHeader} {pe : PeHeader}
    (h : s.Stands content limits offset 88)
    (hPlace : dos.peHeaderOffset.toNat = Layout.peOffset content)
    (hDeclared : pe.sizeOfOptionalHeader.toNat = Layout.optionalSize content) :
    Decides limits (OptionalHeader.read dos pe) s (Layout.optionalFailure? content)
      fun parts s' => OptionalStored content parts.1 parts.2 ∧
        ∃ offset, s'.Stands content limits offset 328 := by
  have hAbsent : pe.sizeOfOptionalHeader = 0 ↔ Layout.optionalSize content = 0 := by
    rw [← hDeclared, ← UInt16.toNat_inj]
    rfl
  have hOffset : Layout.peOffset content + PeHeader.size = Layout.optionalOffset content := rfl
  rw [OptionalHeader.read, hPlace, hOffset]
  refine decides_ite hAbsent ?_ ?_
  · intro none
    refine (decides_emit h).bind_none ?_
    intro _ s₁ h₁
    exact decides_pure ⟨⟨fun _ => ⟨rfl, rfl⟩, fun present => absurd none present⟩, offset,
      h₁.weaken (by omega)⟩
  · intro present
    refine (decides_reach h).bind ?_
    intro _ s₁ _ h₁
    refine (decides_fixed h₁).bind ?_
    intro header s₂ _ hFixed
    have hCount : min header.numberOfRvaAndSizes.toNat 16 = Layout.directoryCount content := by
      rw [numberOfRvaAndSizes_of_fixedStored hFixed.1, Layout.directoryCount]
    rw [← Option.or_none (o := Layout.cutAmong? content .dataDirectory 8 _ _)]
    refine (decides_declared hFixed.2 hCount).bind ?_
    intro directories s₃ _ hRead
    obtain ⟨hItems, h₃⟩ := hRead
    have stored : OptionalStored content header directories :=
      ⟨fun none => absurd none present, fun _ => ⟨hFixed.1, hItems⟩⟩
    refine (decides_reader h₃).bind_none ?_
    intro r s₄ hReader
    obtain ⟨_, hPosition, h₄⟩ := hReader
    refine (decides_difference h₄ (by omega)).bind_none ?_
    intro consumed s₅ h₅
    dsimp only
    split
    · refine (decides_emit h₅).bind_none ?_
      intro _ s₆ h₆
      exact decides_pure ⟨stored, _, h₆⟩
    · exact decides_pure ⟨stored, _, h₅⟩

theorem decides_sectionTable {dos : DosHeader} {pe : PeHeader}
    (h : s.Stands content limits offset 328)
    (hPlace : dos.peHeaderOffset.toNat = Layout.peOffset content)
    (hDeclared : pe.sizeOfOptionalHeader.toNat = Layout.optionalSize content)
    (hCount : pe.numberOfSections.toNat = Layout.sectionCount content) :
    Decides limits (SectionTable.read dos pe) s (Layout.sectionFailure? content)
      fun table _ => table.sections.length = Layout.sectionCount content ∧
        StoredFrom Section.ofRecord content (Layout.sectionOffset content) table.sections := by
  have hLt : Layout.sectionCount content ≤ 65535 := by
    have hWord := pe.numberOfSections.toNat_lt
    omega
  have cost : 328 + 40 * Layout.sectionCount content ≤ largestCost := by
    have hLargest : largestCost = 328 + 40 * 65535 := by decide
    omega
  have hOffset : dos.peHeaderOffset.toNat + PeHeader.size + pe.sizeOfOptionalHeader.toNat =
      Layout.sectionOffset content := by
    rw [hPlace, hDeclared]
    rfl
  rw [SectionTable.read, hOffset, hCount]
  refine (decides_reach h).bind ?_
  intro _ s₁ _ h₁
  refine (decides_sections h₁ cost).bind_pure ?_
  intro sections s₂ _ hRead
  exact ⟨hRead.1, hRead.2.1⟩

theorem decides_read (h : s.Stands content limits offset 0) :
    Decides limits read s (Layout.failure? content) fun headers _ =>
      headers.StoredIn content := by
  refine (decides_dos h).bind ?_
  intro dos s₁ _ hDos
  obtain ⟨⟨dosRecord, hDosStored, rfl⟩, h₁⟩ := hDos
  have hPlace : (DosHeader.ofRecord dosRecord).peHeaderOffset.toNat =
      Layout.peOffset content := by
    rw [DosHeader.ofRecord, hDosStored.toNat_u32, Layout.peOffset, Nat.zero_add]
  refine (decides_pe h₁ hPlace).bind ?_
  intro pe s₂ _ hPe
  obtain ⟨⟨peRecord, hPeStored, rfl⟩, h₂⟩ := hPe
  have hDeclared : (PeHeader.ofRecord peRecord).sizeOfOptionalHeader.toNat =
      Layout.optionalSize content := hPeStored.toNat_u16 rfl
  have hCount : (PeHeader.ofRecord peRecord).numberOfSections.toNat =
      Layout.sectionCount content := hPeStored.toNat_u16 rfl
  refine (decides_optional h₂ hPlace hDeclared).bind ?_
  intro parts s₃ _ hOptional
  obtain ⟨hStored, _, h₃⟩ := hOptional
  refine (decides_sectionTable h₃ hPlace hDeclared hCount).bind_pure ?_
  intro sections s₄ _ hSections
  exact ⟨⟨dosRecord, hDosStored, rfl⟩, ⟨peRecord, hPeStored, rfl⟩, hStored, hSections⟩

end Headers
end PortableExecutable
