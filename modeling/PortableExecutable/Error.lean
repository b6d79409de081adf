import PortableExecutable.Text.Hex

/-!
Why an image is refused. `ReadError` says what a bounded read can meet, `ImageError` what makes an
image unusable; both are causes, and their wording is in one function each. `Fault` is apart from
these: it marks a step of the reading itself that left the range of its numbers.
-/

namespace PortableExecutable

/-- The parts of an image that an error can name. -/
inductive Piece where
  | dosHeader
  | peHeader
  | optionalHeader
  | optionalHeader32
  | optionalHeader64
  | optionalHeaderShared
  | reserves32
  | reserves64
  | dataDirectory
  | sectionTable
  | sectionHeader
  | importDescriptor
  | importDllName
  | importLookupTable
  | exportDirectory
  | exportedFunctions
  | exportedNames
  | exportName
  | exportAddressTable
  | exportForwarder
  | exportNameTable
  | exportOrdinalTable
  | exportedFunctionName
  | resourceDirectory
  | resourceSlots
  | resourceData
  | debugEntry
  | relocationHeader
  | relocationEntries
  | tlsDirectory
  | tlsCallbackTable
  | certificateData
  deriving DecidableEq, Repr, Inhabited

def Piece.name : Piece → String
  | dosHeader => "DOS header"
  | peHeader => "PE header"
  | optionalHeader => "Image Optional Header"
  | optionalHeader32 => "PE32 specific part of the Image Optional Header"
  | optionalHeader64 => "PE32+ specific part of the Image Optional Header"
  | optionalHeaderShared => "common part of the Image Optional Header"
  | reserves32 => "PE32 stack and heap sizes"
  | reserves64 => "PE32+ stack and heap sizes"
  | dataDirectory => "data directory entry"
  | sectionTable => "section table"
  | sectionHeader => "section header"
  | importDescriptor => "import descriptor"
  | importDllName => "imported DLL name"
  | importLookupTable => "import lookup table"
  | exportDirectory => "export directory"
  | exportedFunctions => "exported functions"
  | exportedNames => "exported names"
  | exportName => "export name"
  | exportAddressTable => "export address table"
  | exportForwarder => "export forwarder"
  | exportNameTable => "export name table"
  | exportOrdinalTable => "export ordinal table"
  | exportedFunctionName => "exported function name"
  | resourceDirectory => "resource directory"
  | resourceSlots => "resource directory entries"
  | resourceData => "resource data entry"
  | debugEntry => "debug directory entry"
  | relocationHeader => "relocation block header"
  | relocationEntries => "relocation entries"
  | tlsDirectory => "TLS directory"
  | tlsCallbackTable => "TLS callback table"
  | certificateData => "certificate data"

/-- What a bounded read of the file can meet. -/
inductive ReadError where
  | fileTooLarge (limit found : Nat)
  | readLimitExceeded (limit current : Nat)
  | shortRead (offset expected found : Nat)
  | outOfBounds (offset size : Nat)
  /-- The file cannot be opened at all. -/
  | unavailable
  deriving DecidableEq, Repr, Inhabited

def ReadError.message : ReadError → String
  | fileTooLarge limit found =>
    "File size of " ++ toString found ++ " bytes exceeds the maximum allowed size of " ++
      toString limit ++ " bytes."
  | readLimitExceeded limit current =>
    "A read operation would exceed the total read limit of " ++ toString limit ++
      " bytes. (already read: " ++ toString current ++ ")"
  | shortRead offset expected found =>
    "Short read at offset " ++ Hex.ofNat offset ++ ": expected " ++ toString expected ++
      " bytes, got " ++ toString found ++ "."
  | outOfBounds offset size =>
    "Offset " ++ Hex.ofNat offset ++ " lies beyond the end of the file (" ++ toString size ++
      " bytes)."
  | unavailable => "An underlying I/O error occurred."

/-- A structural failure, which ends the reading of the whole image. -/
inductive ImageError where
  | fileTooSmall (size : Nat)
  | invalidDosSignature (found : Vector UInt8 2)
  | invalidPeSignature (found : Vector UInt8 4)
  | invalidMagic (magic : UInt16)
  | unreachable (piece : Piece) (offset : Nat)
  | truncated (piece : Piece) (cause : ReadError)
  | unmappedAddress (piece : Piece) (address : Nat)
  | ordinalOutOfRange (index : UInt16) (count : Nat)
  | malformedRelocationBlock (offset blockSize remaining : Nat)
  | malformedCertificate (offset length remaining : Nat)
  | limitExceeded (piece : Piece) (count limit : Nat)
  | io (cause : ReadError)
  deriving DecidableEq, Repr, Inhabited

def ImageError.message : ImageError → String
  | fileTooSmall size =>
    "Input file is too small to be a valid PE: " ++ toString size ++ " bytes (need at least 64)"
  | invalidDosSignature found => "Invalid DOS signature: " ++ Hex.listOfBytes found.toList
  | invalidPeSignature found => "Invalid PE signature: " ++ Hex.listOfBytes found.toList
  | invalidMagic magic => "Invalid optional header magic: " ++ Hex.ofNat magic.toNat 4
  | unreachable piece offset =>
    "Could not reach the " ++ piece.name ++ " (offset " ++ Hex.ofNat offset ++ ")"
  | truncated piece cause => "Could not read the " ++ piece.name ++ ": " ++ cause.message
  | unmappedAddress piece address =>
    "Could not translate the " ++ piece.name ++ " address " ++ Hex.ofNat address ++
      " to a file offset"
  | ordinalOutOfRange index count =>
    "Export name ordinal " ++ toString index.toNat ++ " is out of range (" ++ toString count ++
      " exported functions)"
  | malformedRelocationBlock offset blockSize remaining =>
    "Relocation block at offset " ++ Hex.ofNat offset ++ " declares " ++ toString blockSize ++
      " bytes (" ++ toString remaining ++ " remaining in directory)"
  | malformedCertificate offset length remaining =>
    "Certificate at offset " ++ Hex.ofNat offset ++ " declares " ++ toString length ++
      " bytes (" ++ toString remaining ++ " remaining in directory)"
  | limitExceeded piece count limit =>
    "Limit exceeded: " ++ piece.name ++ " (" ++ toString count ++ " > " ++ toString limit ++ ")"
  | io cause => "I/O error: " ++ cause.message

def ImageError.cause? : ImageError → Option ReadError
  | truncated _ cause | io cause => some cause
  | _ => none

/-- A step that left the range of its numbers. -/
inductive Fault where
  | overflow
  | underflow
  /-- A loop was still going when its bound was used up. -/
  | noProgress
  deriving DecidableEq, Repr, Inhabited

/-- How a computation stops early: with an error of its own kind, or by a fault. -/
inductive Stop (ε : Type) where
  | error (e : ε)
  | fault (f : Fault)
  deriving DecidableEq, Repr, Inhabited

end PortableExecutable
