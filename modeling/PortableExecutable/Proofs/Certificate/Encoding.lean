import PortableExecutable.Proofs.Budget.Directories
import PortableExecutable.Proofs.Certificate.Chain
import PortableExecutable.Proofs.Headers.Encoding

/-!
Certificates as bytes. A table of records is laid out with zeros between them up to the next
multiple of eight bytes, and with such zeros behind the last one or without. Reading gives back
what was laid out, except for a last record without a payload: no more than its header is left
there, and the walk takes this for the end of the table.
-/

namespace PortableExecutable
namespace Layout

/-- The file has the bytes at a place. -/
def HasAt (content : ByteArray) (offset : Nat) (stretch : List UInt8) : Prop :=
  bytes content offset stretch.length = stretch

variable {content : ByteArray} {offset : Nat} {stretch more : List UInt8}

theorem HasAt.left (h : HasAt content offset (stretch ++ more)) : HasAt content offset stretch := by
  have hTake := congrArg (fun l => (l.drop 0).take stretch.length) h
  rwa [take_drop_bytes (by simp), List.drop_zero, List.take_left, Nat.add_zero] at hTake

theorem HasAt.right (h : HasAt content offset (stretch ++ more)) :
    HasAt content (offset + stretch.length) more := by
  have hDrop := congrArg (fun l => (l.drop stretch.length).take more.length) h
  rwa [take_drop_bytes (by simp), List.drop_left, List.take_length] at hDrop

theorem HasAt.end_le (h : HasAt content offset stretch) (some : 0 < stretch.length) :
    offset + stretch.length ≤ content.size := by
  have hLength := congrArg List.length h
  rw [bytes_eq_take_drop, List.length_take, List.length_drop, content.data.length_toList,
    ByteArray.size_data] at hLength
  omega

theorem HasAt.number16 {w : UInt16} (h : HasAt content offset (ofWord16 w)) :
    number content offset 2 = w.toNat := by
  rw [HasAt, length_ofWord16] at h
  rw [number, h, ofWord16, LittleEndian.decode_encode]
  exact Nat.mod_eq_of_lt w.toNat_lt

theorem HasAt.number32 {w : UInt32} (h : HasAt content offset (ofWord32 w)) :
    number content offset 4 = w.toNat := by
  rw [HasAt, length_ofWord32] at h
  rw [number, h, ofWord32, LittleEndian.decode_encode]
  exact Nat.mod_eq_of_lt w.toNat_lt

theorem HasAt.extract_eq {data : ByteArray} (h : HasAt content offset data.data.toList) :
    content.extract offset (offset + data.size) = data := by
  rw [HasAt, Array.length_toList, ByteArray.size_data, bytes] at h
  exact ByteArray.ext (Array.toList_inj.mp h)

end Layout

open Layout

theorem Certificate.padding_lt (length : Nat) : padding length < 8 := Nat.mod_lt _ (by decide)

/-- A record by its codes and its payload. Its length counts the header too and has 32 bits, and
something about it is known. -/
structure StoredCertificate where
  revisionCode : UInt16
  typeCode : UInt16
  payload : ByteArray
  length_lt : 8 + payload.size < 2 ^ 32
  recognized : (CertificateRevision.ofCode revisionCode).isKnown = true ∨
    (CertificateType.ofCode typeCode).isKnown = true

namespace StoredCertificate

variable (c : StoredCertificate)

def length : Nat := 8 + c.payload.size

def certificate : Certificate where
  length := UInt32.ofNat c.length
  revision := .ofCode c.revisionCode
  type := .ofCode c.typeCode
  data := c.payload

def encode : List UInt8 :=
  ofWord32 (UInt32.ofNat c.length) ++ ofWord16 c.revisionCode ++ ofWord16 c.typeCode ++
    c.payload.data.toList

/-- What stands between the record and the next one. -/
def zeros : List UInt8 := List.replicate (Certificate.padding c.length) 0

def aligned : List UInt8 := c.encode ++ c.zeros

variable {c}

theorem toNat_length : c.certificate.length.toNat = c.length :=
  UInt32.toNat_ofNat_of_lt' c.length_lt

theorem length_encode : c.encode.length = c.length := by
  simp only [encode, length, List.length_append, length_ofWord16, length_ofWord32,
    Array.length_toList, ByteArray.size_data]

theorem length_zeros : c.zeros.length = Certificate.padding c.length := List.length_replicate

theorem length_aligned : c.aligned.length = c.length + Certificate.padding c.length := by
  rw [aligned, List.length_append, length_encode, length_zeros]

variable {content : ByteArray} {stop offset : Nat}

/-- Where the file has the bytes of a record, it has the record, if more than a header is left. -/
theorem liesAt (h : HasAt content offset c.encode) (room : 8 < stop - offset)
    (fits : offset + c.length ≤ stop) : Certificate.LiesAt content stop offset c.certificate := by
  have header_le : 8 ≤ c.length := Nat.le_add_right 8 _
  have end_le : offset + c.length ≤ content.size := by
    rw [← length_encode] at header_le ⊢
    exact h.end_le (Nat.zero_lt_of_lt header_le)
  have hLength : number content offset 4 = c.certificate.length.toNat := h.left.left.left.number32
  have hRevision : Certificate.revisionAt content offset = .ofCode c.revisionCode := by
    have hCode : number content (offset + 4) 2 = c.revisionCode.toNat := h.left.left.right.number16
    rw [Certificate.revisionAt, hCode, UInt16.ofNat_toNat]
  have hType : Certificate.typeAt content offset = .ofCode c.typeCode := by
    have hCode : number content (offset + 6) 2 = c.typeCode.toNat := h.left.right.number16
    rw [Certificate.typeAt, hCode, UInt16.ofNat_toNat]
  have hData : content.extract (offset + 8) (offset + 8 + c.payload.size) = c.payload :=
    h.right.extract_eq
  have recognized : Certificate.Recognized content offset := by
    rw [Certificate.Recognized, hRevision, hType]
    exact c.recognized
  rw [← toNat_length] at header_le fits end_le
  refine ⟨⟨room, by omega, recognized⟩, hLength.symm, hRevision.symm, hType.symm, ?_, header_le,
    fits, end_le⟩
  rw [toNat_length, length, ← Nat.add_assoc, hData]
  rfl

end StoredCertificate

namespace Certificate

/-- Records one after the other, the zeros behind the last one only if wanted. -/
def layOut (padded : Bool) (front : List StoredCertificate) (last : StoredCertificate) :
    List UInt8 :=
  front.flatMap (·.aligned) ++ (last.encode ++ if padded then last.zeros else [])

/-- All of the records but a last one without a payload. -/
def legible (front : List StoredCertificate) (last : StoredCertificate) : List Certificate :=
  (front ++ if last.payload.size = 0 then [] else [last]).map (·.certificate)

section Layouts

variable {content : ByteArray} {stop offset : Nat} {padded : Bool} {c last : StoredCertificate}
  {front : List StoredCertificate}

theorem layOut_cons :
    layOut padded (c :: front) last = c.aligned ++ layOut padded front last := by
  rw [layOut, layOut, List.flatMap_cons, List.append_assoc]

theorem legible_cons :
    legible (c :: front) last = c.certificate :: legible front last := by
  rw [legible, legible, List.cons_append, List.map_cons]

theorem eight_le_length_layOut : 8 ≤ (layOut padded front last).length := by
  simp only [layOut, List.length_append, StoredCertificate.length_encode, StoredCertificate.length]
  omega

/-- Behind the last record there is nothing but zeros. A header alone is not gone into. -/
theorem records_of_last {tail : List UInt8} (h : HasAt content offset (last.encode ++ tail))
    (hTail : tail.length ≤ padding last.length)
    (hStop : offset + (last.encode ++ tail).length = stop) :
    Records content stop offset (legible [] last) ∧
      stop - place stop offset (legible [] last) ≤ 8 := by
  rw [List.length_append, StoredCertificate.length_encode] at hStop
  by_cases bare : last.payload.size = 0
  case pos =>
    have hLength : last.length = 8 := by rw [StoredCertificate.length, bare]
    have hPadding : padding 8 = 0 := rfl
    rw [hLength] at hStop hTail
    rw [legible, if_pos bare, List.append_nil, List.map_nil, place_nil]
    exact ⟨records_nil, by omega⟩
  case neg =>
    have hLength : 8 < last.length := by rw [StoredCertificate.length]; omega
    have hPadding := padding_lt last.length
    have hNext : offset + last.length ≤ nextPlace stop offset last.length := add_le_nextPlace
    have lies : LiesAt content stop offset last.certificate :=
      last.liesAt h.left (by omega) (by omega)
    rw [legible, if_neg bare, List.nil_append, List.map_singleton, place_cons, place_nil,
      StoredCertificate.toNat_length]
    exact ⟨records_cons_iff.mpr ⟨lies, records_nil⟩, by omega⟩

/-- Where the file has the whole layout, it has the records that are delivered, and no more than a
header is left behind them. -/
theorem records_of_layOut (h : HasAt content offset (layOut padded front last))
    (hStop : offset + (layOut padded front last).length = stop) :
    Records content stop offset (legible front last) ∧
      stop - place stop offset (legible front last) ≤ 8 := by
  induction front generalizing offset with
  | nil =>
      rw [layOut, List.flatMap_nil, List.nil_append] at h hStop
      refine records_of_last h ?_ hStop
      split
      · exact Nat.le_of_eq StoredCertificate.length_zeros
      · exact Nat.zero_le _
  | cons c rest ih =>
      have hRest : 8 ≤ (layOut padded rest last).length := eight_le_length_layOut
      have hLength : 8 ≤ c.length := Nat.le_add_right 8 _
      rw [layOut_cons] at h hStop
      rw [List.length_append, StoredCertificate.length_aligned] at hStop
      -- another record follows, so the padding is not cut
      have hNext : nextPlace stop offset c.length = offset + c.aligned.length := by
        rw [nextPlace, StoredCertificate.length_aligned]
        omega
      have rest := ih h.right (by rw [StoredCertificate.length_aligned]; omega)
      rw [← hNext, ← StoredCertificate.toNat_length] at rest
      rw [legible_cons, place_cons]
      exact ⟨records_cons_iff.mpr ⟨c.liesAt h.left.left (by omega) (by omega), rest.1⟩, rest.2⟩

end Layouts

theorem gives_enter_declared {ctx : Context} {s : Session} {va size : UInt32} (hVa : va ≠ 0)
    (declared : ctx.headers.directory? 4 = some ⟨va, size⟩) (inside : va.toNat ≤ s.reader.size) :
    (enter ctx).Gives s (some va.toNat) (s.reader.moved va.toNat s.reader.bytesRead) := by
  have hDeclared : ctx.declared? 4 = some ⟨va, size⟩ := by
    rw [Context.declared?, if_pos (by decide), declared,
      Option.filter_some_pos (by simpa using hVa)]
  have hPlace : place? ctx s.reader.size = some va.toNat := by
    rw [place?, hDeclared, Option.map_some, Option.filter_some_pos (by simpa using inside)]
  have hGives : (enter ctx).Gives s _ _ := gives_enter
  rwa [hPlace] at hGives

/-- Reading a directory of certificates undoes laying it out, but for a last record without a
payload. -/
theorem read_undoes_layOut {ctx : Context} {s : Session} {va size : UInt32} {padded : Bool}
    {front : List StoredCertificate} {last : StoredCertificate} (inside : s.reader.Inside)
    (hVa : va ≠ 0) (declared : ctx.headers.directory? 4 = some ⟨va, size⟩)
    (hSize : (layOut padded front last).length = size.toNat)
    (stored : HasAt s.reader.content va.toNat (layOut padded front last))
    (unhindered : (enter ctx >>= fun _ => read ctx).Unhindered s) :
    (enter ctx).delivered? s = some (some va.toNat) ∧
      (enter ctx >>= fun _ => read ctx).delivered? s = some (legible front last) ∧
      (last.payload.size ≠ 0 → legible front last = (front ++ [last]).map (·.certificate)) ∧
      (last.payload.size = 0 → legible front last = front.map (·.certificate)) := by
  have hLength : 8 ≤ (layOut padded front last).length := eight_le_length_layOut
  have hPlace : va.toNat ≤ s.reader.size :=
    Nat.le_of_add_right_le (stored.end_le (Nat.zero_lt_of_lt hLength))
  obtain ⟨log, hEnter⟩ := gives_enter_declared hVa declared hPlace
  have hRead : (enter ctx >>= fun _ => read ctx) s = read ctx ⟨_, log⟩ := Scan.bind_of_ok hEnter
  have entered : (s.reader.moved va.toNat s.reader.bytesRead).Inside :=
    ⟨hPlace, inside.size_lt, inside.bytesRead_le⟩
  obtain ⟨hRecords, hLeft⟩ := records_of_layOut stored rfl
  rw [hSize] at hRecords hLeft
  obtain ⟨s', hRun⟩ := read_of_ends (s := ⟨_, log⟩) declared entered rfl
    (fun stop s' hRun => unhindered stop s' (hRead.trans hRun)) hRecords (.spent hLeft)
  refine ⟨Scan.delivered?_eq_some_iff.mpr ⟨_, hEnter⟩,
    Scan.delivered?_eq_some_iff.mpr ⟨s', hRead.trans hRun⟩, fun payload => ?_, fun bare => ?_⟩
  · rw [legible, if_neg payload]
  · rw [legible, if_pos bare, List.append_nil]

section TwoRecords

def fiveBytes : StoredCertificate where
  revisionCode := 0x0200
  typeCode := 2
  payload := ⟨#[1, 2, 3, 4, 5]⟩
  length_lt := by decide
  recognized := by decide

def twoBytes : StoredCertificate where
  revisionCode := 0x0100
  typeCode := 1
  payload := ⟨#[0xAA, 0xBB]⟩
  length_lt := by decide
  recognized := by decide

theorem read_undoes_layOut_twoRecords :
    let ctx := declaring 4 26
    HasAt twoRecords.reader.content 4 (layOut false [fiveBytes] twoBytes) ∧
      (enter ctx >>= fun _ => read ctx).delivered? twoRecords =
        some [fiveBytes.certificate, twoBytes.certificate] := by
  intro ctx
  have inside : twoRecords.reader.Inside := ⟨by decide, by decide, fun _ => by decide⟩
  have hSize : (layOut false [fiveBytes] twoBytes).length = (26 : UInt32).toNat := by
    decide +kernel
  have stored : HasAt twoRecords.reader.content (4 : UInt32).toNat
      (layOut false [fiveBytes] twoBytes) := by
    rw [HasAt]
    decide +kernel
  have unhindered : (enter ctx >>= fun _ => read ctx).Unhindered twoRecords :=
    (costs_enter.free_bind fun _ _ _ _ => costs_read).unhindered (by decide +kernel) (by decide)
  obtain ⟨-, hDelivered, whole, -⟩ := read_undoes_layOut inside (by decide) rfl hSize stored
    unhindered
  rw [whole (by decide)] at hDelivered
  exact ⟨stored, hDelivered⟩

end TwoRecords

section Bare

def bare : StoredCertificate where
  revisionCode := 0x0200
  typeCode := 1
  payload := ⟨#[]⟩
  length_lt := by decide
  recognized := by decide

/-- A record with a payload of five bytes, three zeros, and a record without a payload. -/
def endingBare : Session where
  reader :=
    { label := "memory"
      content := ⟨#[0, 0, 0, 0,
        13, 0, 0, 0, 0, 2, 2, 0, 1, 2, 3, 4, 5, 0, 0, 0,
        8, 0, 0, 0, 0, 2, 1, 0]⟩
      limits := {} }

/-- The last record is part of the layout, and the file has all of it. It is not delivered. -/
theorem bare_last_record_lost :
    let ctx := declaring 4 24
    let run := enter ctx >>= fun _ => read ctx
    endingBare.reader.Inside ∧
      (layOut false [fiveBytes] bare).length = (24 : UInt32).toNat ∧
      HasAt endingBare.reader.content 4 (layOut false [fiveBytes] bare) ∧
      run.Unhindered endingBare ∧ (enter ctx).delivered? endingBare = some (some 4) ∧
      (run.delivered? endingBare).map List.length = some 1 ∧
      run.delivered? endingBare ≠ some [fiveBytes.certificate, bare.certificate] := by
  intro ctx run
  have hLength : (run.delivered? endingBare).map List.length = some 1 := by decide +kernel
  have stored : HasAt endingBare.reader.content 4 (layOut false [fiveBytes] bare) := by
    rw [HasAt]
    decide +kernel
  have unhindered : run.Unhindered endingBare :=
    (costs_enter.free_bind fun _ _ _ _ => costs_read).unhindered (by decide +kernel) (by decide)
  refine ⟨⟨by decide, by decide, fun _ => by decide⟩, by decide +kernel, stored,
    unhindered, by decide +kernel, hLength, fun both => ?_⟩
  rw [both] at hLength
  cases hLength

end Bare

end Certificate
end PortableExecutable
