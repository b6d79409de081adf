import PortableExecutable.Proofs.Reader.Steps
import PortableExecutable.Proofs.Stored
import PortableExecutable.Proofs.Text.Utf8

/-!
What reading a string comes to, whatever the state of the reader. The string is looked for in a
window that ends with the file or with the longest text that is wanted. Either its zero is in the
window, and then it is paid for, or the window is all there is; whether the budget covers the string
is decided by that cost alone. The largest budget covers any cost, also one that the count of bytes
read has no room for.
-/

namespace PortableExecutable

/-- The largest budget covers every read, and another one those that do not go beyond it. -/
theorem Reader.affords_iff_largest_or_le {r : Reader} {length : Nat} :
    r.Affords length ↔ r.limits.maxReadBytes.toNat = 2 ^ 64 - 1 ∨
      r.bytesRead + length ≤ r.limits.maxReadBytes.toNat := by
  have hBudget := r.limits.maxReadBytes.toNat_lt
  rw [Affords, Limits.allows, decide_eq_true_eq, Scan.size_uint64]
  omega

namespace Read

variable {s : Session} {offset maxLength : Nat}

/-- What comes of reading a string, told from its window: the bytes from its place on, no more of
them than are wanted and than the file has. -/
structure FollowsWindow (s : Session) (offset maxLength : Nat) : Prop where
  window_eq : s.reader.window offset maxLength =
    (s.reader.content.data.toList.drop offset).take maxLength
  cost_le : stringCost (s.reader.window offset maxLength) ≤
    (s.reader.window offset maxLength).length
  outside_iff : (∃ place size s',
      stringAt offset maxLength s = .error (.error (.outOfBounds place size)) s') ↔
    s.reader.size ≤ offset
  refused_iff : (∃ limit used s',
      stringAt offset maxLength s = .error (.error (.readLimitExceeded limit used)) s') ↔
    offset < s.reader.size ∧ s.reader.limits.maxReadBytes.toNat < 2 ^ 64 - 1 ∧
      s.reader.limits.maxReadBytes.toNat <
        s.reader.bytesRead + stringCost (s.reader.window offset maxLength)
  unchanged : ∀ e s', stringAt offset maxLength s = .error (.error e) s' → s'.reader = s.reader
  delivers : offset < s.reader.size →
    s.reader.bytesRead + stringCost (s.reader.window offset maxLength) ≤
      s.reader.limits.maxReadBytes.toNat →
    stringAt offset maxLength s =
      .ok (Utf8.decode ((s.reader.window offset maxLength).takeWhile (· != 0)))
        ⟨s.reader.charged (stringCost (s.reader.window offset maxLength)), s.log⟩
  -- the largest budget refuses nothing, not even what its count cannot hold
  overflown_iff : stringAt offset maxLength s = .error (.fault .overflow) s ↔
    offset < s.reader.size ∧ s.reader.limits.maxReadBytes.toNat = 2 ^ 64 - 1 ∧
      2 ^ 64 ≤ s.reader.bytesRead + stringCost (s.reader.window offset maxLength)
  no_zero : ∀ text s', stringAt offset maxLength s = .ok text s' → '\x00' ∉ text.toList

theorem outside_iff_size_le : (∃ place size s',
      stringAt offset maxLength s = .error (.error (.outOfBounds place size)) s') ↔
    s.reader.size ≤ offset := by
  rw [stringAt_eq]
  split_ifs with inside covered fits <;> simp [Reader.refusal] <;> omega

theorem refused_iff_not_affords : (∃ limit used s',
      stringAt offset maxLength s = .error (.error (.readLimitExceeded limit used)) s') ↔
    offset < s.reader.size ∧
      ¬ s.reader.Affords (stringCost (s.reader.window offset maxLength)) := by
  rw [stringAt_eq]
  split_ifs with inside covered fits <;> simp [Reader.refusal, *]

theorem overflown_iff_affords : stringAt offset maxLength s = .error (.fault .overflow) s ↔
    offset < s.reader.size ∧
      s.reader.Affords (stringCost (s.reader.window offset maxLength)) ∧
      2 ^ 64 ≤ s.reader.bytesRead + stringCost (s.reader.window offset maxLength) := by
  rw [stringAt_eq]
  split_ifs with inside covered fits <;> simp [*] <;> omega

theorem reader_eq_of_stringAt_error {e : ReadError} {s' : Session}
    (hRead : stringAt offset maxLength s = .error (.error e) s') : s'.reader = s.reader := by
  rw [stringAt_eq] at hRead
  split_ifs at hRead with inside covered fits
  · cases hRead
  · cases hRead
    rfl
  · cases hRead
    rfl

theorem zero_not_mem_of_stringAt_ok {text : String} {s' : Session}
    (hRead : stringAt offset maxLength s = .ok text s') : '\x00' ∉ text.toList := by
  rw [stringAt_eq] at hRead
  split_ifs at hRead with inside covered fits
  cases hRead
  exact Utf8.zero_not_mem_decode (zero_not_mem_takeWhile _)

/-- A text that is stored with a zero behind it is read back, if there is room for both in what is
wanted and in the budget. -/
theorem stringAt_of_stored {text : String} {rest : List UInt8}
    (stored : s.reader.window offset maxLength = text.toByteArray.data.toList ++ 0 :: rest)
    (nonzero : 0 ∉ text.toByteArray.data.toList)
    (covered : s.reader.bytesRead + (text.utf8ByteSize + 1) ≤ s.reader.limits.maxReadBytes.toNat) :
    stringAt offset maxLength s =
      .ok text ⟨s.reader.charged (text.utf8ByteSize + 1), s.log⟩ := by
  have hBudget := s.reader.limits.maxReadBytes.toNat_lt
  have hSize : text.toByteArray.data.toList.length = text.utf8ByteSize := rfl
  have hText : (s.reader.window offset maxLength).takeWhile (· != 0) =
      text.toByteArray.data.toList := by
    rw [stored, List.takeWhile_append_of_pos, List.takeWhile_cons_of_neg (by decide),
      List.append_nil]
    exact fun b hMem => bne_iff_ne.mpr fun zero => nonzero (zero ▸ hMem)
  have hCost : stringCost (s.reader.window offset maxLength) = text.utf8ByteSize + 1 := by
    rw [stringCost, hText, if_pos, hSize]
    rw [stored]
    exact List.mem_append_right _ List.mem_cons_self
  have inside : offset < s.reader.size := by
    by_contra outside
    have hWindow := s.reader.size_bytesAt offset maxLength
    have hLength : (s.reader.window offset maxLength).length =
      (s.reader.bytesAt offset maxLength).size := rfl
    rw [stored, List.length_append, List.length_cons] at hLength
    omega
  rw [stringAt_eq, hCost, hText, if_pos inside,
    if_pos (Reader.affords_iff_largest_or_le.mpr (.inr covered)), if_pos (by omega),
    Utf8.decode_toByteArray]

theorem string_follows_window (s : Session) (offset maxLength : Nat) :
    FollowsWindow s offset maxLength where
  window_eq := Layout.bytes_eq_take_drop offset maxLength
  cost_le := stringCost_le _
  outside_iff := outside_iff_size_le
  refused_iff := by
    have hBudget := s.reader.limits.maxReadBytes.toNat_lt
    rw [refused_iff_not_affords, Reader.affords_iff_largest_or_le]
    omega
  unchanged _ _ := reader_eq_of_stringAt_error
  delivers inside covered := by
    have hBudget := s.reader.limits.maxReadBytes.toNat_lt
    have affords : s.reader.Affords (stringCost (s.reader.window offset maxLength)) :=
      Reader.affords_iff_largest_or_le.mpr (.inr covered)
    rw [stringAt_eq, if_pos inside, if_pos affords, if_pos (by omega)]
  overflown_iff := by
    have hBudget := s.reader.limits.maxReadBytes.toNat_lt
    rw [overflown_iff_affords, Reader.affords_iff_largest_or_le]
    omega
  no_zero _ _ := zero_not_mem_of_stringAt_ok

/-- Two bytes under the largest budget, when as many bytes were read as can be counted. -/
def countedOut : Session where
  reader :=
    { label := "memory"
      content := ⟨#[97, 98]⟩
      limits := ⟨100, 18446744073709551615⟩
      bytesRead := 18446744073709551615 }

/-- The string is inside the file and no budget refuses it, but nothing is delivered. -/
theorem string_lost_to_count :
    0 < countedOut.reader.size ∧ countedOut.reader.limits.maxReadBytes.toNat = 2 ^ 64 - 1 ∧
      stringAt 0 2 countedOut = .error (.fault .overflow) countedOut := by
  have hCost : stringCost (countedOut.reader.window 0 2) = 2 := by decide
  have covered : countedOut.reader.Affords 2 := by decide
  refine ⟨by decide, by decide, overflown_iff_affords.mpr ⟨by decide, ?_⟩⟩
  rw [hCost]
  exact ⟨covered, by decide⟩

end Read
end PortableExecutable
