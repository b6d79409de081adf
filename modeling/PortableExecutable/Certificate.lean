import PortableExecutable.Directory

/-!
The attribute certificates. They are appended to the file and never mapped into memory, so the
address of this directory is a place in the file. Records are padded to multiples of eight bytes.
A record of unknown type and unknown revision ends the table.
-/

namespace PortableExecutable

inductive CertificateType where
  | x509
  | pkcsSignedData
  | reserved1
  | tsStackSigned
  | unknown (code : UInt16)
  deriving DecidableEq, Repr, Inhabited

namespace CertificateType

def ofCode (code : UInt16) : CertificateType :=
  match code.toNat with
  | 1 => x509
  | 2 => pkcsSignedData
  | 3 => reserved1
  | 4 => tsStackSigned
  | _ => unknown code

def isKnown : CertificateType → Bool
  | unknown _ => false
  | _ => true

end CertificateType

inductive CertificateRevision where
  | revision1_0
  | revision2_0
  | unknown (code : UInt16)
  deriving DecidableEq, Repr, Inhabited

namespace CertificateRevision

def ofCode (code : UInt16) : CertificateRevision :=
  match code.toNat with
  | 0x0100 => revision1_0
  | 0x0200 => revision2_0
  | _ => unknown code

def isKnown : CertificateRevision → Bool
  | unknown _ => false
  | _ => true

end CertificateRevision

structure Certificate where
  /-- Bytes of the whole record, its header included. -/
  length : UInt32
  revision : CertificateRevision
  type : CertificateType
  data : ByteArray

namespace Certificate

/-- Zeros between a record of the given length and the next one. -/
def padding (length : Nat) : Nat := (8 - length % 8) % 8

def enter (ctx : Context) : ImageScan (Option Nat) := do
  match ← ctx.presentDirectory 4 with
  | none => return none
  | some d =>
    let offset := d.virtualAddress.toNat
    match ← Scan.attempt (Read.seek offset) with
    | .ok () => return some offset
    | .error _ =>
      Scan.emit (.certificateTableOutside offset)
      return none

/-- The header of a record, unless the file ends inside it. -/
def readHeader? (offset : Nat) : ImageScan (Option (Record 8)) := do
  match ← Scan.attempt (Read.recordAt offset 8) with
  | .ok header => return some header
  | .error (.shortRead ..) =>
    Scan.emit (.certificateHeaderCut offset)
    return none
  | .error cause => Scan.fail (.io cause)

/-- Reads records from a place on, while more than a header's bytes remain of the declared size. -/
def readMany (offset remaining : Nat) : ImageScan (List Certificate) := do
  if remaining ≤ 8 then return []
  else
    match ← readHeader? offset with
    | none => return []
    | some header =>
      let length := (header.u32 0).toNat
      let revision := CertificateRevision.ofCode (header.u16 4)
      let type := CertificateType.ofCode (header.u16 6)
      if !revision.isKnown && !type.isKnown then
        Scan.emit (.certificateUnrecognized offset (header.u16 4).toNat (header.u16 6).toNat)
        return []
      else if malformed : length < 8 ∨ remaining < length then
        Scan.fail (.malformedCertificate offset length remaining)
      else
        let data ← ImageScan.reading .certificateData
          (Read.recordAt (← Scan.sum offset 8) (deduct length 8 (by omega)))
        let left := deduct remaining length (by omega)
        let skipped := min (padding length) left
        let next ← Scan.sum (← Scan.sum offset length) skipped
        return { length := header.u32 0, revision, type, data := data.bytes } ::
          (← readMany next (deduct left skipped (by omega)))
termination_by remaining
decreasing_by simp only [deduct]; omega

def read (ctx : Context) : ImageScan (List Certificate) := do
  let certificates ← readMany (← Scan.reader).position (ctx.headers.declaredSize 4)
  Scan.emit (.certificatesParsed certificates.length)
  return certificates

def directory : Directory (List Certificate) where
  name := "certificates"
  enabled := (·.parseCertificates)
  enter := enter
  read := read
  absent := []

end Certificate
end PortableExecutable
