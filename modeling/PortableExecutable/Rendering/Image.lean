import PortableExecutable.Image
import PortableExecutable.Rendering.Header

/-!
What the directories hold, as JSON. Codes are shown by name and the bytes of a certificate as
hexadecimal text.
-/

namespace PortableExecutable

def DebugType.toJson : DebugType → Json
  | unknown => .str "Unknown"
  | coff => .str "Coff"
  | codeView => .str "CodeView"
  | fpo => .str "Fpo"
  | misc => .str "Misc"
  | exception => .str "Exception"
  | fixup => .str "Fixup"
  | borland => .str "Borland"
  | clsid => .str "Clsid"
  | vcFeature => .str "VcFeature"
  | pogo => .str "Pogo"
  | iltcg => .str "Iltcg"
  | repro => .str "Repro"
  | exDllCharacteristics => .str "ExDllCharacteristics"
  | other code => .unnamed "Other" code.toNat

def RelocationKind.toJson : RelocationKind → Json
  | absolute => .str "Absolute"
  | high => .str "High"
  | low => .str "Low"
  | highLow => .str "HighLow"
  | highAdj => .str "HighAdj"
  | dir64 => .str "Dir64"
  | other code => .unnamed "Other" code.toNat

def CertificateType.toJson : CertificateType → Json
  | x509 => .str "X509"
  | pkcsSignedData => .str "PkcsSignedData"
  | reserved1 => .str "Reserved1"
  | tsStackSigned => .str "TsStackSigned"
  | unknown code => .unnamed "Unknown" code.toNat

def CertificateRevision.toJson : CertificateRevision → Json
  | revision1_0 => .str "Revision1_0"
  | revision2_0 => .str "Revision2_0"
  | unknown code => .unnamed "Unknown" code.toNat

def ResourceId.toJson : ResourceId → Json
  | id n => .obj [("Id", .ofUInt32 n)]
  | name s => .obj [("Name", .str s)]

def ImportEntry.toJson (e : ImportEntry) : Json := .obj [
  ("name", .ofOption .str e.name),
  ("ordinal", .ofOption .ofUInt16 e.ordinal),
  ("hint", .ofOption .ofUInt16 e.hint),
  ("iat_va", .ofUInt64 e.slotAddress)]

def ImportDescriptor.toJson (d : ImportDescriptor) : Json := .obj [
  ("dll_name", .str d.library),
  ("original_first_thunk", .ofUInt32 d.lookupTable),
  ("time_date_stamp", .ofUInt32 d.timeDateStamp),
  ("forwarder_chain", .ofUInt32 d.forwarderChain),
  ("name_rva", .ofUInt32 d.nameRva),
  ("first_thunk", .ofUInt32 d.addressTable),
  ("entries", .ofList ImportEntry.toJson d.entries)]

def ImportTable.toJson (t : ImportTable) : Json := .obj [
  ("descriptors", .ofList ImportDescriptor.toJson t.descriptors)]

def ExportedFunction.toJson (f : ExportedFunction) : Json := .obj [
  ("address", .ofUInt32 f.address),
  ("ordinal", .ofUInt32 f.ordinal),
  ("name", .ofOption .str f.name),
  ("forward_name", .ofOption .str f.forwardName)]

def ExportDirectory.toJson (d : ExportDirectory) : Json := .obj [
  ("characteristics", .ofUInt32 d.characteristics),
  ("time_date_stamp", .ofUInt32 d.timeDateStamp),
  ("major_version", .ofUInt16 d.majorVersion),
  ("minor_version", .ofUInt16 d.minorVersion),
  ("name_rva", .ofUInt32 d.nameRva),
  ("base", .ofUInt32 d.base),
  ("number_of_functions", .ofUInt32 d.numberOfFunctions),
  ("number_of_names", .ofUInt32 d.numberOfNames),
  ("address_of_functions", .ofUInt32 d.addressOfFunctions),
  ("address_of_names", .ofUInt32 d.addressOfNames),
  ("address_of_name_ordinals", .ofUInt32 d.addressOfNameOrdinals),
  ("name", .str d.name),
  ("functions", .ofList ExportedFunction.toJson d.functions.toList)]

def ResourceEntry.toJson (e : ResourceEntry) : Json := .obj [
  ("path", .ofList ResourceId.toJson e.path),
  ("data_rva", .ofUInt32 e.dataRva),
  ("size", .ofUInt32 e.size),
  ("code_page", .ofUInt32 e.codePage)]

def DebugEntry.toJson (e : DebugEntry) : Json := .obj [
  ("characteristics", .ofUInt32 e.characteristics),
  ("time_date_stamp", .ofUInt32 e.timeDateStamp),
  ("major_version", .ofUInt16 e.majorVersion),
  ("minor_version", .ofUInt16 e.minorVersion),
  ("debug_type", e.debugType.toJson),
  ("size_of_data", .ofUInt32 e.sizeOfData),
  ("address_of_raw_data", .ofUInt32 e.addressOfRawData),
  ("pointer_to_raw_data", .ofUInt32 e.pointerToRawData)]

def RelocationBlock.toJson (b : RelocationBlock) : Json := .obj [
  ("page_rva", .ofUInt32 b.pageRva),
  ("block_size", .ofUInt32 b.blockSize),
  ("type_offsets", .ofList .ofUInt16 b.typeOffsets)]

def TlsDirectory.toJson (d : TlsDirectory) : Json := .obj [
  ("start_address_of_raw_data", .ofUInt64 d.startAddressOfRawData),
  ("end_address_of_raw_data", .ofUInt64 d.endAddressOfRawData),
  ("address_of_index", .ofUInt64 d.addressOfIndex),
  ("address_of_callbacks", .ofUInt64 d.addressOfCallbacks),
  ("size_of_zero_fill", .ofUInt32 d.sizeOfZeroFill),
  ("characteristics", .ofUInt32 d.characteristics),
  ("callbacks", .ofList .ofUInt64 d.callbacks)]

def Certificate.toJson (c : Certificate) : Json := .obj [
  ("length", .ofUInt32 c.length),
  ("revision", c.revision.toJson),
  ("certificate_type", c.type.toJson),
  ("data", .str (Hex.ofBytes c.data.data.toList))]

def Directories.toJson (d : Directories) : Json := .obj [
  ("imports", d.imports.toJson),
  ("exports", .ofOption ExportDirectory.toJson d.exports),
  ("resources", .ofList ResourceEntry.toJson d.resources),
  ("debug", .ofList DebugEntry.toJson d.debug),
  ("relocations", .ofList RelocationBlock.toJson d.relocations),
  ("tls", .ofOption TlsDirectory.toJson d.tls),
  ("certificates", .ofList Certificate.toJson d.certificates)]

/-- The whole image, led by where it came from and whether it was read completely. -/
def Image.toJson (i : Image) : Json := .obj [
  ("path", .str i.path),
  ("file_size", .num i.fileSize),
  ("initialized", .bool i.isComplete),
  ("dos_header", i.headers.dos.toJson),
  ("pe_header", i.headers.pe.toJson),
  ("optional_header", i.headers.optional.toJson),
  ("data_directories", .ofList DataDirectory.toJson i.headers.directories),
  ("sections", i.headers.sections.toJson),
  ("directories", i.directories.toJson)]

end PortableExecutable
