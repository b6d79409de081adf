import PortableExecutable.Header.Optional
import PortableExecutable.Json
import PortableExecutable.Section.Table

/-!
The headers and the section table as JSON. Members carry the names that the format's own
documentation uses, in the order in which the fields are stored; codes are shown by name.
-/

namespace PortableExecutable

def Json.unnamed (label : String) (code : Nat) : Json := .obj [(label, .num code)]

def Json.ofBytes {count : Nat} (bytes : Vector UInt8 count) : Json :=
  .ofList .ofUInt8 bytes.toList

def Json.ofWords {count : Nat} (words : Vector UInt16 count) : Json :=
  .ofList .ofUInt16 words.toList

def Machine.toJson : Machine → Json
  | unknown => .str "Unknown"
  | i386 => .str "I386"
  | x86_64 => .str "X86_64"
  | arm => .str "Arm"
  | arm64 => .str "Arm64"
  | armNT => .str "ArmNT"
  | ia64 => .str "IA64"
  | ebc => .str "EBC"
  | other code => .unnamed "Other" code.toNat

def Subsystem.toJson : Subsystem → Json
  | unknown => .str "Unknown"
  | native => .str "Native"
  | windowsGui => .str "WindowsGui"
  | windowsCui => .str "WindowsCui"
  | os2Cui => .str "Os2Cui"
  | posixCui => .str "PosixCui"
  | windowsCeGui => .str "WindowsCeGui"
  | efiApplication => .str "EfiApplication"
  | efiBootServiceDriver => .str "EfiBootServiceDriver"
  | efiRuntimeDriver => .str "EfiRuntimeDriver"
  | efiRom => .str "EfiRom"
  | xbox => .str "Xbox"
  | windowsBootApplication => .str "WindowsBootApplication"
  | other code => .unnamed "Other" code.toNat

def DosHeader.toJson (h : DosHeader) : Json := .obj [
  ("e_magic", .ofBytes h.magic),
  ("e_cblp", .ofUInt16 h.bytesOnLastPage),
  ("e_cp", .ofUInt16 h.pages),
  ("e_crlc", .ofUInt16 h.relocations),
  ("e_cparhdr", .ofUInt16 h.headerParagraphs),
  ("e_minalloc", .ofUInt16 h.minExtraParagraphs),
  ("e_maxalloc", .ofUInt16 h.maxExtraParagraphs),
  ("e_ss", .ofUInt16 h.initialSs),
  ("e_sp", .ofUInt16 h.initialSp),
  ("e_csum", .ofUInt16 h.checksum),
  ("e_ip", .ofUInt16 h.initialIp),
  ("e_cs", .ofUInt16 h.initialCs),
  ("e_lfarlc", .ofUInt16 h.relocationTableOffset),
  ("e_ovno", .ofUInt16 h.overlayNumber),
  ("e_res", .ofWords h.reserved),
  ("e_oemid", .ofUInt16 h.oemId),
  ("e_oeminfo", .ofUInt16 h.oemInfo),
  ("e_res2", .ofWords h.reserved2),
  ("e_lfanew", .ofUInt32 h.peHeaderOffset)]

def PeHeader.toJson (h : PeHeader) : Json := .obj [
  ("signature", .ofBytes h.signature),
  ("machine", h.machine.toJson),
  ("number_of_sections", .ofUInt16 h.numberOfSections),
  ("time_date_stamp", .ofUInt32 h.timeDateStamp),
  ("pointer_to_symbol_table", .ofUInt32 h.pointerToSymbolTable),
  ("number_of_symbols", .ofUInt32 h.numberOfSymbols),
  ("size_of_optional_header", .ofUInt16 h.sizeOfOptionalHeader),
  ("characteristics", .ofUInt16 h.characteristics)]

def DataDirectory.toJson (d : DataDirectory) : Json := .obj [
  ("virtual_address", .ofUInt32 d.virtualAddress),
  ("size", .ofUInt32 d.size)]

def OptionalHeaderCommon.toJson (h : OptionalHeaderCommon) : Json := .obj [
  ("magic", .ofUInt16 h.magic),
  ("major_linker_version", .ofUInt8 h.majorLinkerVersion),
  ("minor_linker_version", .ofUInt8 h.minorLinkerVersion),
  ("size_of_code", .ofUInt32 h.sizeOfCode),
  ("size_of_initialized_data", .ofUInt32 h.sizeOfInitializedData),
  ("size_of_uninitialized_data", .ofUInt32 h.sizeOfUninitializedData),
  ("address_of_entry_point", .ofUInt32 h.addressOfEntryPoint),
  ("base_of_code", .ofUInt32 h.baseOfCode)]

def WindowsFields.toJson (h : WindowsFields) : Json := .obj [
  ("section_alignment", .ofUInt32 h.sectionAlignment),
  ("file_alignment", .ofUInt32 h.fileAlignment),
  ("major_operating_system_version", .ofUInt16 h.majorOperatingSystemVersion),
  ("minor_operating_system_version", .ofUInt16 h.minorOperatingSystemVersion),
  ("major_image_version", .ofUInt16 h.majorImageVersion),
  ("minor_image_version", .ofUInt16 h.minorImageVersion),
  ("major_subsystem_version", .ofUInt16 h.majorSubsystemVersion),
  ("minor_subsystem_version", .ofUInt16 h.minorSubsystemVersion),
  ("win32_version_value", .ofUInt32 h.win32VersionValue),
  ("size_of_image", .ofUInt32 h.sizeOfImage),
  ("size_of_headers", .ofUInt32 h.sizeOfHeaders),
  ("checksum", .ofUInt32 h.checksum),
  ("subsystem", h.subsystem.toJson),
  ("dll_characteristics", .ofUInt16 h.dllCharacteristics)]

def OptionalHeader32.toJson (h : OptionalHeader32) : Json := .obj [
  ("common", h.common.toJson),
  ("base_of_data", .ofUInt32 h.baseOfData),
  ("image_base", .ofUInt32 h.imageBase),
  ("windows", h.windows.toJson),
  ("size_of_stack_reserve", .ofUInt32 h.sizeOfStackReserve),
  ("size_of_stack_commit", .ofUInt32 h.sizeOfStackCommit),
  ("size_of_heap_reserve", .ofUInt32 h.sizeOfHeapReserve),
  ("size_of_heap_commit", .ofUInt32 h.sizeOfHeapCommit),
  ("loader_flags", .ofUInt32 h.loaderFlags),
  ("number_of_rva_and_sizes", .ofUInt32 h.numberOfRvaAndSizes)]

def OptionalHeader64.toJson (h : OptionalHeader64) : Json := .obj [
  ("common", h.common.toJson),
  ("image_base", .ofUInt64 h.imageBase),
  ("windows", h.windows.toJson),
  ("size_of_stack_reserve", .ofUInt64 h.sizeOfStackReserve),
  ("size_of_stack_commit", .ofUInt64 h.sizeOfStackCommit),
  ("size_of_heap_reserve", .ofUInt64 h.sizeOfHeapReserve),
  ("size_of_heap_commit", .ofUInt64 h.sizeOfHeapCommit),
  ("loader_flags", .ofUInt32 h.loaderFlags),
  ("number_of_rva_and_sizes", .ofUInt32 h.numberOfRvaAndSizes)]

def OptionalHeader.toJson : OptionalHeader → Json
  | absent => .str "Absent"
  | pe32 h => .obj [("Pe32", h.toJson)]
  | pe32Plus h => .obj [("Pe32Plus", h.toJson)]

def Section.toJson (s : Section) : Json := .obj [("header", .obj [
  ("name", .ofBytes s.storedName),
  ("virtual_size", .ofUInt32 s.virtualSize),
  ("virtual_address", .ofUInt32 s.virtualAddress),
  ("size_of_raw_data", .ofUInt32 s.sizeOfRawData),
  ("pointer_to_raw_data", .ofUInt32 s.pointerToRawData),
  ("pointer_to_relocations", .ofUInt32 s.pointerToRelocations),
  ("pointer_to_line_numbers", .ofUInt32 s.pointerToLineNumbers),
  ("number_of_relocations", .ofUInt16 s.numberOfRelocations),
  ("number_of_line_numbers", .ofUInt16 s.numberOfLineNumbers),
  ("characteristics", .ofUInt32 s.characteristics)])]

def SectionTable.toJson (t : SectionTable) : Json := .ofList Section.toJson t.sections

end PortableExecutable
