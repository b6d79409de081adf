import PortableExecutable.Proofs.Headers.Acceptance
import PortableExecutable.Proofs.Headers.Encoding

/-!
Headers that were read are their bytes. Written in the layout of the file they give back the four
parts that they were read from, whatever the budget was; so a file's headers determine these bytes.
-/

namespace PortableExecutable

/-- The bytes of the fixed part. -/
def OptionalHeader.fixedSize : OptionalHeader → Nat
  | absent => 0
  | pe32 _ => 96
  | pe32Plus _ => 112

def OptionalHeader.encode : OptionalHeader → List UInt8
  | absent => []
  | pe32 h => h.encode
  | pe32Plus h => h.encode

theorem StoredFrom.flatMap_encode {α : Type} {width offset : Nat} {decode : Record width → α}
    {encode : α → List UInt8} {content : ByteArray} {items : List α}
    (back : ∀ r, encode (decode r) = r.bytes.data.toList)
    (h : StoredFrom decode content offset items) :
    items.flatMap encode = Layout.bytes content offset (width * items.length) := by
  induction items generalizing offset with
  | nil => simp [Layout.bytes]
  | cons a rest ih =>
      obtain ⟨⟨r, hStored, rfl⟩, hRest⟩ := h
      rw [List.flatMap_cons, ih hRest, back, hStored.bytes_eq, Layout.bytes_append,
        List.length_cons, Nat.mul_succ, Nat.add_comm width]

theorem OptionalHeader.encode_of_fixedStored {content : ByteArray} {offset : Nat}
    {h : OptionalHeader} (stored : h.FixedStored content offset) :
    h.encode = Layout.bytes content offset h.fixedSize ∧
      h.fixedSize = Layout.fixedSize content := by
  cases stored with
  | inl narrow =>
      obtain ⟨hMagic, h32, rfl, hStored⟩ := narrow
      refine ⟨h32.encode_of_storedAt hStored, ?_⟩
      rw [Layout.fixedSize, hMagic]
      rfl
  | inr wide =>
      obtain ⟨hMagic, h64, rfl, hStored⟩ := wide
      refine ⟨h64.encode_of_storedAt hStored, ?_⟩
      rw [Layout.fixedSize, hMagic]
      rfl

namespace Headers

variable {content : ByteArray} {h : Headers}

/-- Where the optional header would be, as the headers tell it. -/
def optionalOffset (h : Headers) : Nat := h.dos.peHeaderOffset.toNat + 24

/-- Where the section table is, as the headers tell it. -/
def sectionOffset (h : Headers) : Nat := h.optionalOffset + h.pe.sizeOfOptionalHeader.toNat

/-- The stretches of a file that hold the headers, each by its place and its length: the DOS header,
the PE header, the optional header with its directories, and each section. -/
def stretches (h : Headers) : List (Nat × Nat) :=
  [(0, 64), (h.dos.peHeaderOffset.toNat, 24),
    (h.optionalOffset, h.optional.fixedSize + 8 * h.directories.length)] ++
      (List.range h.sections.sections.length).map fun k => (h.sectionOffset + 40 * k, 40)

/-- The headers as bytes, stretch by stretch. -/
def encode (h : Headers) : List (List UInt8) :=
  [h.dos.encode, h.pe.encode, h.optional.encode ++ h.directories.flatMap DataDirectory.encode] ++
    h.sections.sections.map Section.encode

theorem StoredIn.peOffset_eq (stored : h.StoredIn content) :
    h.dos.peHeaderOffset.toNat = Layout.peOffset content := by
  obtain ⟨r, hStored, hDos⟩ := stored.dos
  rw [hDos, DosHeader.ofRecord, hStored.toNat_u32, Layout.peOffset, Nat.zero_add]

theorem StoredIn.optionalOffset_eq (stored : h.StoredIn content) :
    h.optionalOffset = Layout.optionalOffset content := by
  rw [optionalOffset, stored.peOffset_eq, Layout.optionalOffset]

theorem StoredIn.sectionOffset_eq (stored : h.StoredIn content) :
    h.sectionOffset = Layout.sectionOffset content := by
  obtain ⟨r, hStored, hPe⟩ := stored.pe
  rw [sectionOffset, stored.optionalOffset_eq, hPe, PeHeader.ofRecord, hStored.toNat_u16,
    Layout.sectionOffset, Layout.optionalSize]

theorem StoredIn.encode_dos (stored : h.StoredIn content) :
    h.dos.encode = Layout.bytes content 0 64 := by
  obtain ⟨r, hStored, hDos⟩ := stored.dos
  rw [hDos, DosHeader.encode_ofRecord, hStored.bytes_eq]

theorem StoredIn.encode_pe (stored : h.StoredIn content) :
    h.pe.encode = Layout.bytes content h.dos.peHeaderOffset.toNat 24 := by
  obtain ⟨r, hStored, hPe⟩ := stored.pe
  rw [hPe, PeHeader.encode_ofRecord, hStored.bytes_eq, stored.peOffset_eq]

theorem StoredIn.encode_optional (stored : h.StoredIn content) :
    h.optional.encode ++ h.directories.flatMap DataDirectory.encode =
      Layout.bytes content h.optionalOffset
        (h.optional.fixedSize + 8 * h.directories.length) := by
  by_cases absent : Layout.optionalSize content = 0
  · obtain ⟨hOptional, hDirectories⟩ := stored.optional.1 absent
    rw [hOptional, hDirectories]
    simp [OptionalHeader.encode, OptionalHeader.fixedSize, Layout.bytes]
  · obtain ⟨hFixed, _, hDirectories⟩ := stored.optional.2 absent
    obtain ⟨hEncode, hSize⟩ := OptionalHeader.encode_of_fixedStored hFixed
    rw [hEncode, hDirectories.flatMap_encode DataDirectory.encode_ofRecord,
      stored.optionalOffset_eq, ← hSize, Layout.bytes_append]

theorem StoredIn.encode_section (stored : h.StoredIn content) (k : Nat)
    (hk : k < h.sections.sections.length) :
    h.sections.sections[k].encode = Layout.bytes content (h.sectionOffset + 40 * k) 40 := by
  obtain ⟨r, hStored, hSection⟩ := stored.sections.2.getElem k hk
  rw [hSection, Section.encode_ofRecord, hStored.bytes_eq, stored.sectionOffset_eq]

theorem StoredIn.encode_eq (stored : h.StoredIn content) :
    h.encode = h.stretches.map fun stretch => Layout.bytes content stretch.1 stretch.2 := by
  have hSections : h.sections.sections.map Section.encode =
      (List.range h.sections.sections.length).map fun k =>
        Layout.bytes content (h.sectionOffset + 40 * k) 40 := by
    apply List.ext_getElem
    · simp
    · intro k hk _
      rw [List.length_map] at hk
      rw [List.getElem_map, List.getElem_map, List.getElem_range]
      exact stored.encode_section k hk
  rw [encode, stretches, List.map_append, List.map_map, hSections, stored.encode_dos,
    stored.encode_pe, stored.encode_optional]
  rfl

/-- The headers stand for bytes of the file. They have the shape that its magic number selects, and
as many directories and sections as it declares; encoding them gives the bytes back, stretch by
stretch, and any other file that reads as the same headers has the same bytes there. -/
structure Reencodes (content : ByteArray) (h : Headers) : Prop where
  stored : h.StoredIn content
  encode_eq : h.encode = h.stretches.map fun stretch => Layout.bytes content stretch.1 stretch.2
  agrees : ∀ (label : String) (content' : ByteArray) (limits : Limits) (r : Reader)
    (log : Array LogEntry) (s : Session),
    Reader.ofBytes label content' limits = .ok r → read ⟨r, log⟩ = .ok h s →
      ∀ stretch ∈ h.stretches,
        Layout.bytes content stretch.1 stretch.2 = Layout.bytes content' stretch.1 stretch.2

theorem read_reencodes {label : String} {limits : Limits} {r : Reader} {log : Array LogEntry}
    {s : Session} (made : Reader.ofBytes label content limits = .ok r)
    (hRun : read ⟨r, log⟩ = .ok h s) : h.Reencodes content := by
  have hStored : h.StoredIn content :=
    (Scan.Leads.ok (decides_read (stands_ofBytes made log)) hRun).2
  refine ⟨hStored, hStored.encode_eq, ?_⟩
  intro label' content' limits' r' log' s' made' hRun'
  have hStored' : h.StoredIn content' :=
    (Scan.Leads.ok (decides_read (stands_ofBytes made' log')) hRun').2
  exact List.map_inj_left.mp (hStored.encode_eq.symm.trans hStored'.encode_eq)

/-- The headers of the compact image are the 64-bit one, its one directory and its one section. -/
theorem read_reencodes_compact :
    Reader.ofBytes "memory" compact ⟨188, 2621728⟩ = .ok compactReader ∧
      ∃ h s, read ⟨compactReader, #[]⟩ = .ok h s ∧ h.Reencodes compact ∧
        (∃ wide, h.optional = .pe32Plus wide) ∧ h.directories.length = 1 ∧
          h.sections.sections.length = 1 := by
  obtain ⟨h, s, hRun⟩ :=
    exists_read_of_hasHeaders ofBytes_compact unrefused_compact hasHeaders_compact
  have hBack := read_reencodes ofBytes_compact hRun
  have present : Layout.optionalSize compact ≠ 0 := by decide +kernel
  have notNarrow : Layout.magic compact ≠ 0x10B := by decide +kernel
  have one : Layout.directoryCount compact = 1 ∧ Layout.sectionCount compact = 1 := by
    decide +kernel
  obtain ⟨hFixed, hDirectories, _⟩ := hBack.stored.optional.2 present
  refine ⟨ofBytes_compact, h, s, hRun, hBack, ?_, hDirectories.trans one.1,
    hBack.stored.sections.1.trans one.2⟩
  cases hFixed with
  | inl narrow => exact absurd narrow.1 notNarrow
  | inr wide =>
      obtain ⟨_, h64, hShape, _⟩ := wide
      exact ⟨h64, hShape⟩

end Headers
end PortableExecutable
