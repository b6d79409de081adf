import Mathlib.Algebra.BigOperators.Group.List.Basic
import Mathlib.Algebra.GroupWithZero.Nat
import PortableExecutable.Proofs.Judgement

/-!
How certificates follow each other in a file. Every place follows from the lengths before it: a
record is followed by zeros up to the next multiple of eight bytes, or as many as are left of the
declared size. The walk goes from record to record until it comes to a place where there is none.
Then the table is over, or it is malformed there.
-/

namespace PortableExecutable

open Layout

namespace Certificate

/-- The place behind a record and the zeros that follow it, in a table that ends at `stop`. -/
def nextPlace (stop offset length : Nat) : Nat :=
  offset + length + min (padding length) (stop - offset - length)

/-- The place behind records that follow each other from a place on. -/
def place (stop offset : Nat) (certificates : List Certificate) : Nat :=
  certificates.foldl (fun offset c => nextPlace stop offset c.length.toNat) offset

section Statements

variable (content : ByteArray) (stop offset : Nat)

def revisionAt : CertificateRevision := .ofCode (UInt16.ofNat (number content (offset + 4) 2))

def typeAt : CertificateType := .ofCode (UInt16.ofNat (number content (offset + 6) 2))

def Recognized : Prop :=
  (revisionAt content offset).isKnown = true ∨ (typeAt content offset).isKnown = true

/-- More than a header is left of the table, and the file has a header there that is recognized. -/
structure Headed : Prop where
  room : 8 < stop - offset
  inside : offset + 8 ≤ content.size
  recognized : Recognized content offset

/-- The certificate is the record that the file has at a place. -/
structure LiesAt (c : Certificate) : Prop extends Headed content stop offset where
  length_eq : c.length.toNat = number content offset 4
  revision_eq : c.revision = revisionAt content offset
  type_eq : c.type = typeAt content offset
  data_eq : c.data = content.extract (offset + 8) (offset + c.length.toNat)
  header_le : 8 ≤ c.length.toNat
  fits : offset + c.length.toNat ≤ stop
  end_le : offset + c.length.toNat ≤ content.size

/-- The certificates are the records that follow each other from a place on. -/
def Records (certificates : List Certificate) : Prop :=
  ∀ k (h : k < certificates.length),
    LiesAt content stop (place stop offset (certificates.take k)) certificates[k]

/-- The table is over at a place. -/
inductive Ends : Prop
  | spent (h : stop - offset ≤ 8)
  | cut (h : content.size < offset + 8)
  | unrecognized (inside : offset + 8 ≤ content.size) (h : ¬ Recognized content offset)

/-- The length in the header at a place is less than that of a header or more than what is left. -/
structure Malformed : Prop extends Headed content stop offset where
  length_bad : number content offset 4 < 8 ∨ stop - offset < number content offset 4

/-- The walk may ask the budget for so many bytes at a place: for a header, and if that is a sound
one for the whole record. -/
def Asks (n : Nat) : Prop :=
  n = 8 ∨ ¬ Malformed content stop offset ∧ n = number content offset 4

/-- What is wrong with the record at a place. -/
inductive Rejects : ImageError → Prop
  | malformed (h : Malformed content stop offset) :
      Rejects (.malformedCertificate offset (number content offset 4) (stop - offset))
  | cut (headed : Headed content stop offset) (header_le : 8 ≤ number content offset 4)
      (fits : number content offset 4 ≤ stop - offset)
      (h : content.size < offset + number content offset 4) (found : Nat) :
      Rejects (.truncated .certificateData
        (.shortRead (offset + 8) (number content offset 4 - 8) found))

end Statements

section Places

variable {stop offset length : Nat} {c : Certificate} {certificates : List Certificate}

theorem add_le_nextPlace : offset + length ≤ nextPlace stop offset length :=
  Nat.le_add_right _ _

@[simp] theorem place_nil : place stop offset [] = offset := rfl

@[simp] theorem place_cons :
    place stop offset (c :: certificates) =
      place stop (nextPlace stop offset c.length.toNat) certificates := rfl

theorem le_place : offset ≤ place stop offset certificates := by
  induction certificates generalizing offset with
  | nil => exact Nat.le_refl _
  | cons c rest ih => exact Nat.le_trans (Nat.le_of_add_right_le add_le_nextPlace) ih

/-- A record ends before the places of all later ones. -/
theorem add_le_place {j k : Nat} (hj : j < k) (hk : k < certificates.length) :
    place stop offset (certificates.take j) + certificates[j].length.toNat ≤
      place stop offset (certificates.take k) := by
  induction certificates generalizing offset j k with
  | nil => exact absurd hk (Nat.not_lt_zero k)
  | cons c rest ih =>
      cases k with
      | zero => exact absurd hj (Nat.not_lt_zero j)
      | succ k =>
          cases j with
          | zero => exact Nat.le_trans add_le_nextPlace le_place
          | succ j => exact ih (Nat.lt_of_succ_lt_succ hj) (Nat.lt_of_succ_lt_succ hk)

end Places

section Uniqueness

variable {content : ByteArray} {stop offset : Nat} {c c' : Certificate}
  {certificates certificates' : List Certificate} {e : ImageError}

theorem records_nil : Records content stop offset [] := fun _ h => absurd h (Nat.not_lt_zero _)

theorem records_cons_iff :
    Records content stop offset (c :: certificates) ↔
      LiesAt content stop offset c ∧
        Records content stop (nextPlace stop offset c.length.toNat) certificates := by
  constructor
  · intro h
    exact ⟨h 0 (Nat.zero_lt_succ _), fun k hk => h (k + 1) (Nat.succ_lt_succ hk)⟩
  · intro h k hk
    cases k with
    | zero => exact h.1
    | succ k => exact h.2 k (Nat.lt_of_succ_lt_succ hk)

/-- A place has at most one record. -/
theorem LiesAt.unique (h : LiesAt content stop offset c) (h' : LiesAt content stop offset c') :
    c = c' := by
  have hLength : c.length = c'.length :=
    UInt32.toNat_inj.mp (h.length_eq.trans h'.length_eq.symm)
  have hRevision := h.revision_eq.trans h'.revision_eq.symm
  have hType := h.type_eq.trans h'.type_eq.symm
  have hData : c.data = c'.data := by rw [h.data_eq, h'.data_eq, hLength]
  cases c
  cases c'
  simp only at hLength hRevision hType hData
  rw [hLength, hRevision, hType, hData]

theorem not_recognized_iff {header : Record 8} (h : header.StoredAt content offset) :
    ¬ Recognized content offset ↔
      (!(CertificateRevision.ofCode (header.u16 4)).isKnown &&
        !(CertificateType.ofCode (header.u16 6)).isKnown) = true := by
  rw [Recognized, revisionAt, typeAt, ← h.u16_eq rfl, ← h.u16_eq rfl]
  simp

/-- What is read of a record lies where it was read. -/
theorem liesAt_of_storedAt {length : Nat} {header : Record 8} {data : Record length}
    (headed : Headed content stop offset) (hHeader : header.StoredAt content offset)
    (hData : data.StoredAt content (offset + 8)) (hLength : 8 + length = (header.u32 0).toNat)
    (fits : offset + (header.u32 0).toNat ≤ stop)
    (end_le : offset + (header.u32 0).toNat ≤ content.size) :
    LiesAt content stop offset ⟨header.u32 0, .ofCode (header.u16 4), .ofCode (header.u16 6),
      data.bytes⟩ := by
  refine ⟨headed, hHeader.toNat_u32 rfl, congrArg CertificateRevision.ofCode (hHeader.u16_eq rfl),
    congrArg CertificateType.ofCode (hHeader.u16_eq rfl), ?_, Nat.le.intro hLength, fits, end_le⟩
  rw [hData, Nat.add_assoc, hLength]

theorem Ends.not_headed (h : Ends content stop offset) : ¬ Headed content stop offset := by
  intro headed
  cases h with
  | spent h => exact absurd headed.room (Nat.not_lt_of_le h)
  | cut h => exact absurd headed.inside (Nat.not_le_of_lt h)
  | unrecognized _ h => exact h headed.recognized

theorem Ends.not_liesAt (h : Ends content stop offset) : ¬ LiesAt content stop offset c :=
  fun lies => h.not_headed lies.toHeaded

theorem Rejects.headed (h : Rejects content stop offset e) : Headed content stop offset := by
  cases h with
  | malformed h => exact h.toHeaded
  | cut headed _ _ _ => exact headed

theorem Rejects.eq_of_malformed (h : Rejects content stop offset e)
    (malformed : Malformed content stop offset) :
    e = .malformedCertificate offset (number content offset 4) (stop - offset) := by
  cases h with
  | malformed _ => rfl
  | cut _ header_le fits _ =>
      have hBad := malformed.length_bad
      omega

theorem Rejects.not_liesAt (h : Rejects content stop offset e) :
    ¬ LiesAt content stop offset c := by
  intro lies
  have hLe := lies.header_le
  have hFits := lies.fits
  have hEnd := lies.end_le
  rw [lies.length_eq] at hLe hFits hEnd
  cases h with
  | malformed h =>
      have hBad := h.length_bad
      omega
  | cut _ _ _ h => omega

/-- Records that end where there is no further one are determined by the place they begin at. -/
theorem Records.unique (h : Records content stop offset certificates)
    (ended : ∀ c, ¬ LiesAt content stop (place stop offset certificates) c)
    (h' : Records content stop offset certificates')
    (ended' : ∀ c, ¬ LiesAt content stop (place stop offset certificates') c) :
    certificates = certificates' := by
  induction certificates generalizing offset certificates' with
  | nil =>
      cases certificates' with
      | nil => rfl
      | cons c' rest' => exact absurd (records_cons_iff.mp h').1 (ended c')
  | cons c rest ih =>
      obtain ⟨lies, hRest⟩ := records_cons_iff.mp h
      cases certificates' with
      | nil => exact absurd lies (ended' c)
      | cons c' rest' =>
          obtain ⟨lies', hRest'⟩ := records_cons_iff.mp h'
          cases lies.unique lies'
          rw [ih hRest ended hRest' ended']

end Uniqueness

section Walk

variable {content : ByteArray} {limits : Limits} {position stop offset : Nat} {s : Session}

theorem leads_readHeader? (h : s.Reads content limits position) :
    (readHeader? offset).Leads s
      (fun header? s' => s'.Reads content limits position ∧
        match header? with
        | none => content.size < offset + 8
        | some header => header.StoredAt content offset ∧ offset + 8 ≤ content.size ∧
            s'.reader.bytesRead = s.reader.bytesRead + 8)
      fun e _ => limits.Hinders e ∧ limits.maxReadBytes.toNat < s.reader.bytesRead + 8 := by
  rw [readHeader?, Scan.leads_bind, Scan.leads_attempt]
  apply h.leads_recordAt
  · intro beyond _
    have refused : limits.Hinders ((Stop.error s.reader.refusal).map ImageError.io) :=
      Limits.hinders_refusal fun _ => rfl
    exact ⟨refused, beyond⟩
  · intro largest beyond _
    exact ⟨⟨rfl, largest⟩, beyond⟩
  · intro outside found s' h'
    exact ⟨h'.of_reader_eq rfl, by omega⟩
  · intro inside header s' stored hReader h'
    exact ⟨h', stored, by omega, congrArg Reader.bytesRead hReader⟩

/-- The bytes behind a sound header make up the record at its place, if the file has them. -/
theorem leads_data {header : Record 8} (h : s.Reads content limits position)
    (headed : Headed content stop offset) (hHeader : header.StoredAt content offset)
    (header_le : 8 ≤ (header.u32 0).toNat) (fits : offset + (header.u32 0).toNat ≤ stop) :
    (ImageScan.reading .certificateData
        (Read.recordAt (offset + 8) (deduct (header.u32 0).toNat 8 header_le))).Leads s
      (fun data s' => s'.Reads content limits position ∧
        s'.reader.bytesRead + 8 = s.reader.bytesRead + (header.u32 0).toNat ∧
        LiesAt content stop offset
          ⟨header.u32 0, .ofCode (header.u16 4), .ofCode (header.u16 6), data.bytes⟩)
      fun e _ => limits.Hinders e ∧
          limits.maxReadBytes.toNat + 8 < s.reader.bytesRead + (header.u32 0).toNat ∨
        ∃ cause, Rejects content stop offset cause ∧ e = .error cause := by
  have hLength : (header.u32 0).toNat = number content offset 4 := hHeader.toNat_u32 rfl
  have inside := headed.inside
  rw [deduct, ImageScan.leads_reading]
  apply h.leads_recordAt
  · intro beyond _
    exact .inl ⟨Limits.hinders_refusal fun _ => rfl, by omega⟩
  · intro largest beyond _
    exact .inl ⟨⟨rfl, largest⟩, by omega⟩
  · intro hShort found _ _
    rw [hLength] at header_le fits hShort ⊢
    exact .inr ⟨_, .cut headed header_le (by omega) (by omega) found, rfl⟩
  · intro hInside data s' hStored hReader h'
    refine ⟨h', ?_, liesAt_of_storedAt headed hHeader hStored (by omega) fits (by omega)⟩
    rw [hReader, Reader.charged, Reader.moved_bytesRead]
    omega

/-- All that can happen at a place. The budget hinders the walk only where it does not cover what
the place asks for. -/
theorem leads_place {remaining : Nat} {done : List Certificate → Session → Prop}
    {stopped : Stop ImageError → Session → Prop} (h : s.Reads content limits position)
    (hStop : offset + remaining = stop) (hEnd : stop < 2 ^ 64)
    (hindered : ∀ e s' n, limits.Hinders e → Asks content stop offset n →
      limits.maxReadBytes.toNat < s.reader.bytesRead + n → stopped e s')
    (ended : Ends content stop offset → ∀ s', done [] s')
    (rejected : ∀ cause s', Rejects content stop offset cause → stopped (.error cause) s')
    (record : ∀ c s', LiesAt content stop offset c → s'.Reads content limits position →
      s'.reader.bytesRead = s.reader.bytesRead + c.length.toNat →
        (readMany (nextPlace stop offset c.length.toNat)
          (stop - nextPlace stop offset c.length.toNat)).Leads s'
            (fun rest => done (c :: rest)) stopped) :
    (readMany offset remaining).Leads s done stopped := by
  have hLeft : remaining = stop - offset := by omega
  rw [readMany]
  split
  case isTrue spent => exact ended (.spent (by omega)) s
  case isFalse more =>
    rw [Scan.leads_bind]
    refine (leads_readHeader? h).mono ?_ fun e s' hStop' =>
      hindered e s' 8 hStop'.1 (.inl rfl) hStop'.2
    intro header? s₁ hHeader
    obtain ⟨h₁, hHeader⟩ := hHeader
    cases header? with
    | none => exact ended (.cut hHeader) s₁
    | some header =>
        obtain ⟨stored, inside, hSpent⟩ := hHeader
        have hLength : (header.u32 0).toNat = number content offset 4 := stored.toNat_u32 rfl
        dsimp only
        split
        case isTrue unknown =>
          exact ended (.unrecognized inside ((not_recognized_iff stored).mpr unknown)) _
        case isFalse known =>
          have headed : Headed content stop offset :=
            ⟨by omega, inside,
              Classical.byContradiction fun h => known ((not_recognized_iff stored).mp h)⟩
          split
          case isTrue malformed =>
            rw [hLength, hLeft] at malformed ⊢
            exact rejected _ _ (.malformed ⟨headed, malformed⟩)
          case isFalse sound =>
            have notMalformed : ¬ Malformed content stop offset := by
              intro malformed
              have hBad := malformed.length_bad
              omega
            rw [Scan.sum_of_lt (by omega), pure_bind, Scan.leads_bind]
            refine (leads_data h₁ headed stored (by omega) (by omega)).mono ?_ ?_
            · intro data s₂ hData
              obtain ⟨h₂, hSpent', lies⟩ := hData
              have hNext : offset + (header.u32 0).toNat +
                  min (padding (header.u32 0).toNat) (remaining - (header.u32 0).toNat) =
                    nextPlace stop offset (header.u32 0).toNat := by
                rw [nextPlace, hLeft]
              -- the padding is cut at the end of the table, so no sum leaves 64 bits
              have hNextLe : nextPlace stop offset (header.u32 0).toNat ≤ stop := by
                rw [nextPlace]
                omega
              have hRemaining : remaining - (header.u32 0).toNat -
                  min (padding (header.u32 0).toNat) (remaining - (header.u32 0).toNat) =
                    stop - nextPlace stop offset (header.u32 0).toNat := by omega
              simp only [deduct]
              rw [Scan.sum_of_lt (by omega), pure_bind, Scan.sum_of_lt (by omega), pure_bind, hNext,
                hRemaining, Scan.leads_bind]
              have hSpent₂ : s₂.reader.bytesRead = s.reader.bytesRead + (header.u32 0).toNat := by
                omega
              exact (record _ s₂ lies h₂ hSpent₂).mono (fun _ _ hDone => hDone)
                fun _ _ hStop' => hStop'
            · intro e s₂ hStop'
              obtain hinders | ⟨cause, rejects, rfl⟩ := hStop'
              · exact hindered e s₂ _ hinders.1 (.inr ⟨notMalformed, hLength⟩) (by omega)
              · exact rejected cause s₂ rejects

theorem nextPlace_le (c : Certificate) (lies : LiesAt content stop offset c) :
    offset + 8 ≤ nextPlace stop offset c.length.toNat ∧
      nextPlace stop offset c.length.toNat ≤ stop := by
  have hHeader := lies.header_le
  have hFits := lies.fits
  rw [nextPlace]
  omega

/-- The walk delivers the records up to a place where the table is over, or it stops at a place
where the record is rejected. -/
theorem leads_readMany {remaining : Nat} (h : s.Reads content limits position)
    (hStop : offset + remaining = stop) (hEnd : stop < 2 ^ 64) :
    (readMany offset remaining).Leads s
      (fun certificates _ => Records content stop offset certificates ∧
        Ends content stop (place stop offset certificates))
      fun e _ => limits.Hinders e ∨ ∃ certificates cause,
        Records content stop offset certificates ∧
          Rejects content stop (place stop offset certificates) cause ∧ e = .error cause := by
  induction remaining using Nat.strongRecOn generalizing offset s with
  | ind remaining ih => ?_
  apply leads_place h hStop hEnd
  · exact fun _ _ _ hinders _ _ => .inl hinders
  · exact fun ends _ => ⟨records_nil, ends⟩
  · exact fun cause _ rejects => .inr ⟨[], cause, records_nil, rejects, rfl⟩
  · intro c s' lies h' _
    have hNext := nextPlace_le c lies
    refine (ih _ (by omega) h' (by omega)).mono ?_ ?_
    · intro rest _ hRest
      exact ⟨records_cons_iff.mpr ⟨lies, hRest.1⟩, hRest.2⟩
    · intro e _ hStop'
      refine hStop'.imp_right fun hRejected => ?_
      obtain ⟨rest, cause, hRest, rejects, hCause⟩ := hRejected
      exact ⟨c :: rest, cause, records_cons_iff.mpr ⟨lies, hRest⟩, rejects, hCause⟩

/-- The bytes of the records themselves, without the zeros between them. -/
def totalLength (certificates : List Certificate) : Nat :=
  (certificates.map fun c => c.length.toNat).sum

/-- Where the budget covers the records before it and its header, a malformed record is reported. -/
theorem leads_readMany_of_malformed {remaining : Nat} {certificates : List Certificate}
    (h : s.Reads content limits position) (hStop : offset + remaining = stop)
    (hEnd : stop < 2 ^ 64) (hRecords : Records content stop offset certificates)
    (malformed : Malformed content stop (place stop offset certificates))
    (covered : s.reader.bytesRead + totalLength certificates + 8 ≤ limits.maxReadBytes.toNat) :
    (readMany offset remaining).Leads s (fun _ _ => False)
      fun e _ => e = .error (.malformedCertificate (place stop offset certificates)
        (number content (place stop offset certificates) 4)
        (stop - place stop offset certificates)) := by
  induction certificates generalizing offset remaining s with
  | nil =>
      rw [place_nil] at malformed ⊢
      apply leads_place h hStop hEnd
      · intro e s' n _ asks beyond
        obtain rfl | ⟨sound, -⟩ := asks
        · exact absurd covered (Nat.not_le_of_lt beyond)
        · exact absurd malformed sound
      · exact fun ends _ => ends.not_headed malformed.toHeaded
      · exact fun cause _ rejects => congrArg Stop.error (rejects.eq_of_malformed malformed)
      · exact fun c _ lies => absurd lies (Rejects.malformed malformed).not_liesAt
  | cons c rest ih =>
      obtain ⟨lies, hRest⟩ := records_cons_iff.mp hRecords
      have hHeader := lies.header_le
      have hTotal : totalLength (c :: rest) = c.length.toNat + totalLength rest := rfl
      rw [place_cons] at malformed ⊢
      apply leads_place h hStop hEnd
      · intro e s' n _ asks beyond
        have hLength := lies.length_eq
        obtain rfl | ⟨-, rfl⟩ := asks <;> omega
      · exact fun ends _ => ends.not_liesAt lies
      · exact fun cause _ rejects => absurd lies rejects.not_liesAt
      · intro c' s' lies' h' hSpent
        cases lies.unique lies'
        have hNext := nextPlace_le c lies
        exact ih h' (by omega) hRest malformed (by omega)

/-- The directory is read by the walk from the declared place on, over the declared size. -/
theorem leads_read_of_readMany {ctx : Context} {va size : UInt32}
    {done : List Certificate → Prop} {stopped : Stop ImageError → Prop}
    (declared : ctx.headers.directory? 4 = some ⟨va, size⟩) (entered : s.reader.position = va.toNat)
    (walk : (readMany va.toNat size.toNat).Leads s (fun certificates _ => done certificates)
      fun e _ => stopped e) :
    (read ctx).Leads s (fun certificates _ => done certificates) fun e _ => stopped e := by
  have hDeclared : ctx.headers.declaredSize 4 = size.toNat := by
    rw [Headers.declaredSize, declared]
    rfl
  rw [read, Scan.leads_bind, Scan.leads_reader, hDeclared, entered, Scan.leads_bind]
  exact walk

theorem declared_end_lt (va size : UInt32) : va.toNat + size.toNat < 2 ^ 64 := by
  have hVa := va.toNat_lt
  have hSize := size.toNat_lt
  omega

theorem leads_read {ctx : Context} {va size : UInt32}
    (declared : ctx.headers.directory? 4 = some ⟨va, size⟩) (inside : s.reader.Inside)
    (entered : s.reader.position = va.toNat) :
    let stop := va.toNat + size.toNat
    (read ctx).Leads s
      (fun certificates _ => Records s.reader.content stop va.toNat certificates ∧
        Ends s.reader.content stop (place stop va.toNat certificates))
      fun e _ => s.reader.limits.Hinders e ∨ ∃ certificates cause,
        Records s.reader.content stop va.toNat certificates ∧
          Rejects s.reader.content stop (place stop va.toNat certificates) cause ∧
            e = .error cause :=
  leads_read_of_readMany declared entered
    (leads_readMany ⟨rfl, rfl, rfl, inside⟩ rfl (declared_end_lt va size))

/-- The records up to where the table is over are what is delivered. -/
theorem read_of_ends {ctx : Context} {va size : UInt32} {certificates : List Certificate}
    (declared : ctx.headers.directory? 4 = some ⟨va, size⟩) (inside : s.reader.Inside)
    (entered : s.reader.position = va.toNat) (unhindered : (read ctx).Unhindered s)
    (hRecords : Records s.reader.content (va.toNat + size.toNat) va.toNat certificates)
    (hEnds : Ends s.reader.content (va.toNat + size.toNat)
      (place (va.toNat + size.toNat) va.toNat certificates)) :
    ∃ s', read ctx s = .ok certificates s' := by
  have leads := leads_read declared inside entered
  cases hRead : read ctx s with
  | ok certificates' s' =>
      obtain ⟨hRecords', hEnds'⟩ := leads.ok hRead
      cases hRecords.unique (fun _ => hEnds.not_liesAt) hRecords' fun _ => hEnds'.not_liesAt
      exact ⟨s', rfl⟩
  | error e s' =>
      obtain hinders | ⟨certificates', cause, hRecords', rejects, -⟩ := leads.error hRead
      · exact absurd hinders (unhindered e s' hRead)
      · cases hRecords.unique (fun _ => hEnds.not_liesAt) hRecords' fun _ => rejects.not_liesAt
        exact absurd rejects.headed hEnds.not_headed

end Walk

/-- What is delivered are the records from the declared place on, each behind the last one, up to
where no more than a header is left, where the file ends in a header, or where nothing of a header
is known. A recognized header with an impossible length is an error, unless the budget stops the
walk before; it is sure to be the error if the budget covers the records before it and the header
itself. -/
theorem read_follows_chain {ctx : Context} {s : Session} {va size : UInt32}
    (declared : ctx.headers.directory? 4 = some ⟨va, size⟩) (inside : s.reader.Inside)
    (entered : s.reader.position = va.toNat) :
    let content := s.reader.content
    let stop := va.toNat + size.toNat
    (∀ certificates s', read ctx s = .ok certificates s' →
      Records content stop va.toNat certificates ∧
        Ends content stop (place stop va.toNat certificates) ∧
        ∀ j k (hj : j < k) (hk : k < certificates.length),
          place stop va.toNat (certificates.take j) + certificates[j].length.toNat ≤
            place stop va.toNat (certificates.take k)) ∧
    ∀ certificates, Records content stop va.toNat certificates →
      Malformed content stop (place stop va.toNat certificates) →
        let reported := Stop.error (.malformedCertificate (place stop va.toNat certificates)
          (number content (place stop va.toNat certificates) 4)
          (stop - place stop va.toNat certificates))
        (∃ e s', read ctx s = .error e s' ∧ (s.reader.limits.Hinders e ∨ e = reported)) ∧
          (s.reader.bytesRead + totalLength certificates + 8 ≤ s.reader.limits.maxReadBytes.toNat →
            ∃ s', read ctx s = .error reported s') := by
  intro content stop
  have leads := leads_read declared inside entered
  refine ⟨fun certificates s' hRead => ?_, fun certificates hRecords malformed => ⟨?_, ?_⟩⟩
  · obtain ⟨hRecords, hEnds⟩ := leads.ok hRead
    exact ⟨hRecords, hEnds, fun j k hj hk => add_le_place hj hk⟩
  · have ended {c : Certificate} := (Rejects.malformed malformed).not_liesAt (c := c)
    cases hRead : read ctx s with
    | ok certificates' s' =>
        obtain ⟨hRecords', hEnds⟩ := leads.ok hRead
        cases hRecords.unique (fun _ => ended) hRecords' fun _ => hEnds.not_liesAt
        exact absurd malformed.toHeaded hEnds.not_headed
    | error e s' =>
        refine ⟨e, s', rfl, (leads.error hRead).imp_right fun hRejected => ?_⟩
        obtain ⟨certificates', cause, hRecords', rejects, rfl⟩ := hRejected
        cases hRecords.unique (fun _ => ended) hRecords' fun _ => rejects.not_liesAt
        rw [rejects.eq_of_malformed malformed]
  · intro covered
    have reports := leads_read_of_readMany declared entered
      (leads_readMany_of_malformed ⟨rfl, rfl, rfl, inside⟩ rfl (declared_end_lt va size) hRecords
        malformed covered)
    cases hRead : read ctx s with
    | ok certificates' s' => exact (reports.ok hRead).elim
    | error e s' =>
        cases reports.error hRead
        exact ⟨s', rfl⟩

/-- Two records, three zeros after the first one and none after the second. -/
def twoRecords : Session where
  reader :=
    { label := "memory"
      content := ⟨#[0, 0, 0, 0,
        13, 0, 0, 0, 0, 2, 2, 0, 1, 2, 3, 4, 5, 0, 0, 0,
        10, 0, 0, 0, 0, 1, 1, 0, 0xAA, 0xBB]⟩
      limits := {}
      position := 4 }

def declaring (va size : UInt32) : Context := ⟨{ directories := [{}, {}, {}, {}, ⟨va, size⟩] }, {}⟩

theorem read_follows_chain_twoRecords :
    let content := twoRecords.reader.content
    (∃ certificates s', read (declaring 4 26) twoRecords = .ok certificates s' ∧
      certificates.map (·.length) = [13, 10] ∧ Records content 30 4 certificates ∧
        Ends content 30 (place 30 4 certificates)) ∧
      ∃ s', read (declaring 4 25) twoRecords =
        .error (.error (.malformedCertificate 20 10 9)) s' := by
  intro content
  have inside : twoRecords.reader.Inside := ⟨by decide, by decide, fun _ => by decide⟩
  have first : LiesAt content 29 4 ⟨13, .revision2_0, .pkcsSignedData, ⟨#[1, 2, 3, 4, 5]⟩⟩ :=
    ⟨⟨by decide, by decide, .inl (by decide +kernel)⟩, by decide +kernel, by decide +kernel,
      by decide +kernel, by decide +kernel, by decide, by decide, by decide⟩
  have second : Malformed content 29 20 :=
    ⟨⟨by decide, by decide, .inl (by decide +kernel)⟩, .inr (by decide +kernel)⟩
  have hLength : number content 20 4 = 10 := by decide +kernel
  constructor
  · have hRun : ((read (declaring 4 26)).delivered? twoRecords).map (·.map (·.length)) =
        some [13, 10] := by decide +kernel
    obtain ⟨certificates, hRun, hLengths⟩ := Option.map_eq_some_iff.mp hRun
    obtain ⟨s', hRun⟩ := Scan.delivered?_eq_some_iff.mp hRun
    obtain ⟨hRecords, hEnds, -⟩ := (read_follows_chain rfl inside rfl).1 certificates s' hRun
    exact ⟨certificates, s', hRun, hLengths, hRecords, hEnds⟩
  · have declared : (declaring 4 25).headers.directory? 4 = some ⟨4, 25⟩ := rfl
    rw [← hLength]
    exact ((read_follows_chain declared inside rfl).2 [_]
      (records_cons_iff.mpr ⟨first, records_nil⟩) second).2 (by decide)

end Certificate
end PortableExecutable
