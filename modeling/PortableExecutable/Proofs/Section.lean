import PortableExecutable.Proofs.Reader.Steps
import PortableExecutable.Section

/-!
Reading back the bytes of a section from a file of its own reading. What the file does not have is
left out of the result. It is not left out of what the budget is asked for: that is the declared
size, so a section that declares more than the budget is refused even where the file has nothing of
it, although no more would be read than is there.
-/

namespace PortableExecutable
namespace Section

variable {s : Section} {path : String} {content : ByteArray} {limits : Limits}

/-- What a file has of the bytes that back the section. -/
def storedIn (s : Section) (content : ByteArray) : ByteArray :=
  content.extract s.pointerToRawData.toNat (s.pointerToRawData.toNat + s.sizeOfRawData.toNat)

theorem size_storedIn (s : Section) (content : ByteArray) :
    (s.storedIn content).size =
      min (s.pointerToRawData.toNat + s.sizeOfRawData.toNat) content.size -
        s.pointerToRawData.toNat :=
  ByteArray.size_extract

theorem size_storedIn_le (s : Section) (content : ByteArray) :
    (s.storedIn content).size ≤ s.sizeOfRawData.toNat := by
  rw [size_storedIn]
  omega

/-- A fresh reader asks its budget for the declared size and delivers what the file has. -/
theorem leads_rawData (s : Section) (path : String) (content : ByteArray) (limits : Limits) :
    Scan.Leads
      (ImageScan.io (Read.chunkAt s.pointerToRawData.toNat s.sizeOfRawData.toNat))
      { reader := { label := path, content, limits } }
      (fun chunk _ => s.sizeOfRawData.toNat ≤ limits.maxReadBytes.toNat ∧
        chunk = s.storedIn content)
      fun stop _ => limits.maxReadBytes.toNat < s.sizeOfRawData.toNat ∧
        stop = .error (.io (.readLimitExceeded limits.maxReadBytes.toNat 0)) := by
  have hSize := s.sizeOfRawData.toNat_lt
  have affords_iff : Reader.Affords { label := path, content, limits } s.sizeOfRawData.toNat ↔
      s.sizeOfRawData.toNat ≤ limits.maxReadBytes.toNat := by
    rw [Reader.Affords, Limits.allows, decide_eq_true_eq, Scan.size_uint64]
    dsimp only
    omega
  rw [ImageScan.leads_io]
  apply Read.leads_chunkAt
  · intro uncovered _
    exact ⟨Nat.lt_of_not_le (mt affords_iff.mpr uncovered), rfl⟩
  · intro _ overflows
    have hStored := s.size_storedIn_le content
    exact absurd overflows (by change ¬ 2 ^ 64 ≤ 0 + (s.storedIn content).size; omega)
  · intro covered _
    exact ⟨affords_iff.mp covered, rfl⟩

theorem ofFile_of_size_le (fits : content.size ≤ limits.maxFileSize.toNat) :
    (Reader.ofFile path (some content) limits).1 = .ok { label := path, content, limits } := by
  simp only [Reader.ofFile, Reader.ofBytes, if_neg (Nat.not_lt.mpr fits)]

theorem rawData_of_declared_le (fits : content.size ≤ limits.maxFileSize.toNat)
    (covered : s.sizeOfRawData.toNat ≤ limits.maxReadBytes.toNat) :
    s.rawData path (some content) limits = .ok (s.storedIn content) := by
  have leads := s.leads_rawData path content limits
  rw [rawData, ofFile_of_size_le fits]
  dsimp only
  split
  case h_1 chunk s' hRun => rw [(leads.ok hRun).2]
  case h_2 stop s' hRun => exact absurd (leads.error hRun).1 (Nat.not_lt.mpr covered)

theorem rawData_of_lt_declared (fits : content.size ≤ limits.maxFileSize.toNat)
    (uncovered : limits.maxReadBytes.toNat < s.sizeOfRawData.toNat) :
    s.rawData path (some content) limits =
      .error (.error (.io (.readLimitExceeded limits.maxReadBytes.toNat 0))) := by
  have leads := s.leads_rawData path content limits
  rw [rawData, ofFile_of_size_le fits]
  dsimp only
  split
  case h_1 chunk s' hRun => exact absurd (leads.ok hRun).1 (Nat.not_le.mpr uncovered)
  case h_2 stop s' hRun => rw [(leads.error hRun).2]

/-- What comes of reading back a section. The declared size decides it, so the middle ground, a
budget that covers what the file has but not what is declared, belongs to the refusals. -/
structure ReadsBack (s : Section) (path : String) (content : ByteArray) (limits : Limits) :
    Prop where
  size_eq : (s.storedIn content).size =
    min (s.pointerToRawData.toNat + s.sizeOfRawData.toNat) content.size -
      s.pointerToRawData.toNat
  delivers : s.sizeOfRawData.toNat ≤ limits.maxReadBytes.toNat →
    s.rawData path (some content) limits = .ok (s.storedIn content)
  refuses : limits.maxReadBytes.toNat < s.sizeOfRawData.toNat →
    s.rawData path (some content) limits =
      .error (.error (.io (.readLimitExceeded limits.maxReadBytes.toNat 0)))
  refuses_stored : limits.maxReadBytes.toNat < (s.storedIn content).size →
    s.rawData path (some content) limits =
      .error (.error (.io (.readLimitExceeded limits.maxReadBytes.toNat 0)))

theorem rawData_reads_back (fits : content.size ≤ limits.maxFileSize.toNat) :
    s.ReadsBack path content limits where
  size_eq := s.size_storedIn content
  delivers := rawData_of_declared_le fits
  refuses := rawData_of_lt_declared fits
  refuses_stored uncovered :=
    rawData_of_lt_declared fits (Nat.lt_of_lt_of_le uncovered (s.size_storedIn_le content))

/-- Four bytes are declared from offset 3 of five: two are there. -/
def overlong : Section := { pointerToRawData := 3, sizeOfRawData := 4 }

def fiveBytes : ByteArray := ⟨#[10, 20, 30, 40, 50]⟩

theorem rawData_reads_back_overlong :
    fiveBytes.size ≤ (5 : UInt64).toNat ∧
      overlong.rawData "f" (some fiveBytes) ⟨5, 4⟩ = .ok ⟨#[40, 50]⟩ ∧
      overlong.rawData "f" (some fiveBytes) ⟨5, 3⟩ =
        .error (.error (.io (.readLimitExceeded 3 0))) := by
  have fits : fiveBytes.size ≤ (5 : UInt64).toNat := by decide
  have stored : overlong.storedIn fiveBytes = ⟨#[40, 50]⟩ := by decide +kernel
  have covered : overlong.ReadsBack "f" fiveBytes ⟨5, 4⟩ := rawData_reads_back fits
  have uncovered : overlong.ReadsBack "f" fiveBytes ⟨5, 3⟩ := rawData_reads_back fits
  exact ⟨fits, stored ▸ covered.delivers (by decide), uncovered.refuses (by decide)⟩

/-- A budget of three covers the two bytes that are there, and is refused all the same. -/
theorem rawData_charges_absent_bytes :
    ¬ ∀ (s : Section) (path : String) (content : ByteArray) (limits : Limits),
      content.size ≤ limits.maxFileSize.toNat →
      (s.storedIn content).size ≤ limits.maxReadBytes.toNat →
      s.rawData path (some content) limits = .ok (s.storedIn content) := by
  intro delivers
  have delivered := delivers overlong "f" fiveBytes ⟨5, 3⟩ (by decide) (by decide +kernel)
  have refused : overlong.rawData "f" (some fiveBytes) ⟨5, 3⟩ =
      .error (.error (.io (.readLimitExceeded 3 0))) :=
    rawData_of_lt_declared (by decide) (by decide)
  rw [refused] at delivered
  cases delivered

end Section
end PortableExecutable
