import PortableExecutable.Proofs.Judgement

/-!
Reading records at places of a file, whatever the state of the reader is. Such reads leave the
cursor where it is and only ever add to the count of bytes read, so that the end of a run tells
enough of the budget to say why a record on the way was not delivered.
-/

namespace PortableExecutable

/-- The second reader has read on in the file of the first one, with the cursor where it was. -/
structure Reader.ReadsOn (r r' : Reader) : Prop where
  content_eq : r'.content = r.content
  limits_eq : r'.limits = r.limits
  position_eq : r'.position = r.position
  bytesRead_le : r.bytesRead ≤ r'.bytesRead

namespace Reader.ReadsOn

variable {r r' r'' : Reader}

theorem refl (r : Reader) : r.ReadsOn r := ⟨rfl, rfl, rfl, Nat.le_refl _⟩

theorem trans (h : r.ReadsOn r') (h' : r'.ReadsOn r'') : r.ReadsOn r'' :=
  ⟨h'.content_eq.trans h.content_eq, h'.limits_eq.trans h.limits_eq,
    h'.position_eq.trans h.position_eq, Nat.le_trans h.bytesRead_le h'.bytesRead_le⟩

theorem charged (r : Reader) (count : Nat) : r.ReadsOn (r.charged count) :=
  ⟨rfl, rfl, rfl, Nat.le_add_right _ _⟩

/-- What is too much for a budget stays too much for it. -/
theorem not_affords (h : r.ReadsOn r') {length : Nat} (refused : ¬ r.Affords length) :
    ¬ r'.Affords length := by
  have hSpent := h.bytesRead_le
  simp only [Affords, Limits.allows, decide_eq_true_eq, h.limits_eq] at refused ⊢
  omega

end Reader.ReadsOn

/-- What an attempt at a record comes to: the record that the file has there, or an error where the
file has ended. -/
def Record.Attempted (content : ByteArray) (offset : Nat) {length : Nat} :
    Except ReadError (Record length) → Prop
  | .ok r => (length = 0 ∨ offset + length ≤ content.size) ∧ r.StoredAt content offset
  | .error _ => ¬ (length = 0 ∨ offset + length ≤ content.size)

namespace ImageScan

variable {s : Session} {offset length : Nat} {piece : Piece} {inside : Prop}

/-- What stops a computation that reads what the file has only if `inside` holds: a refused read or
a number that leaves 64 bits, and without `inside` any error. -/
def Stops (inside : Prop) : Stop ImageError → Prop
  | .error e => e.IsRefusal ∨ ¬ inside
  | .fault f => f = .overflow

/-- A record that is read is one that the file has. -/
theorem leads_reading_recordAt {done : Record length → Session → Prop}
    (needed : inside → length = 0 ∨ offset + length ≤ s.reader.content.size)
    (delivered : ∀ r log, r.StoredAt s.reader.content offset →
      length = 0 ∨ offset + length ≤ s.reader.content.size →
        done r ⟨s.reader.charged length, log⟩) :
    (reading piece (Read.recordAt offset length)).Leads s done fun stop _ => Stops inside stop := by
  have hSize := s.reader.size_bytesAt offset length
  rw [Reader.size_eq] at hSize
  rw [leads_reading]
  apply Read.leads_recordAt
  · exact fun _ _ => .inl ⟨_, rfl, _, _, rfl⟩
  · exact fun _ _ _ => rfl
  · intro _ cut _
    exact .inr fun holds => by
      have hInside := needed holds
      omega
  · intro _ whole log
    exact delivered _ log rfl (by omega)

/-- A record that is attempted is delivered if the file has it and the budget covers it. -/
theorem leads_attempt_recordAt {done : Except ReadError (Record length) → Session → Prop}
    (attempted : ∀ found s', Record.Attempted s.reader.content offset found ∨
      (∃ e, found = .error e) ∧ ¬ s'.reader.Affords length →
        s.reader.ReadsOn s'.reader → done found s') :
    (Scan.attempt (Read.recordAt offset length) : ImageScan _).Leads s done
      fun stop _ => Stops inside stop := by
  have hDelivered := s.reader.size_bytesAt offset length
  rw [Reader.size_eq] at hDelivered
  rw [Scan.leads_attempt]
  apply Read.leads_recordAt
  · intro refused log
    exact attempted _ ⟨s.reader, log⟩ (.inr ⟨⟨_, rfl⟩, refused⟩) (.refl _)
  · exact fun _ _ _ => rfl
  · intro _ cut log
    refine attempted (.error _) ⟨_, log⟩ (.inl ?_) (.charged _ _)
    rw [Record.Attempted]
    omega
  · intro _ whole log
    exact attempted (.ok _) ⟨_, log⟩ (.inl ⟨by omega, rfl⟩) (.charged _ _)

end ImageScan
end PortableExecutable
