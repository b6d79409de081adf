import PortableExecutable.Proofs.Reader.Cursor
import PortableExecutable.Proofs.Reader.Sound

/-!
Safety of a computation: from a sound reader it never ends in a fault, and whether it delivers or
stops with an error, the reader is a sound one on the same file. `Safe` also carries what is known
of a delivered value, which is what later steps need to stay in range.
-/

namespace PortableExecutable

/-- A later session on the same file, with a sound reader. -/
structure Session.Continues (s s' : Session) : Prop where
  content_eq : s'.reader.content = s.reader.content
  limits_eq : s'.reader.limits = s.reader.limits
  sound : s'.reader.Sound

namespace Session.Continues

variable {s s' s'' : Session}

theorem refl (h : s.reader.Sound) : s.Continues s := ⟨rfl, rfl, h⟩

theorem trans (h : s.Continues s') (h' : s'.Continues s'') : s.Continues s'' :=
  ⟨h'.content_eq.trans h.content_eq, h'.limits_eq.trans h.limits_eq, h'.sound⟩

theorem of_reader_eq (h : s.reader.Sound) (hReader : s'.reader = s.reader) :
    s.Continues s' :=
  ⟨congrArg Reader.content hReader, congrArg Reader.limits hReader, hReader ▸ h⟩

theorem size_eq (h : s.Continues s') : s'.reader.size = s.reader.size := by
  rw [Reader.size_eq, Reader.size_eq, h.content_eq]

end Session.Continues

namespace Scan

variable {ε ε' α β : Type} {s : Session}

def Safe (act : Scan ε α) (s : Session) (post : α → Session → Prop) : Prop :=
  act.Leads s (fun a s' => s.Continues s' ∧ post a s')
    (fun stop s' => s.Continues s' ∧ ∃ e, stop = .error e)

theorem Safe.mono {act : Scan ε α} {post post' : α → Session → Prop} (h : act.Safe s post)
    (hPost : ∀ a s', post a s' → post' a s') : act.Safe s post' :=
  Leads.mono h (fun a s' hDone => ⟨hDone.1, hPost a s' hDone.2⟩) fun _ _ hStop => hStop

/-- Without what is known of the value. -/
theorem Safe.weaken {act : Scan ε α} {post : α → Session → Prop} (h : act.Safe s post) :
    act.Safe s fun _ _ => True :=
  h.mono fun _ _ _ => True.intro

theorem Safe.pure {a : α} {post : α → Session → Prop} (h : s.reader.Sound) (hPost : post a s) :
    (pure a : Scan ε α).Safe s post :=
  ⟨.refl h, hPost⟩

theorem Safe.bind {act : Scan ε α} {next : α → Scan ε β} {mid : α → Session → Prop}
    {post : β → Session → Prop} (first : act.Safe s mid)
    (rest : ∀ a s', s.Continues s' → mid a s' → (next a).Safe s' post) :
    (act >>= next).Safe s post := by
  rw [Safe, leads_bind]
  apply Leads.mono first
  · intro a s' hDone
    apply Leads.mono (rest a s' hDone.1 hDone.2)
    · intro b s'' hLast
      exact ⟨hDone.1.trans hLast.1, hLast.2⟩
    · intro e s'' hLast
      exact ⟨hDone.1.trans hLast.1, hLast.2⟩
  · intro e s' hStop
    exact hStop

theorem Safe.map {act : Scan ε α} {f : α → β} {post : β → Session → Prop}
    (h : act.Safe s fun a s' => post (f a) s') : (f <$> act).Safe s post := by
  rw [Safe, leads_map]
  exact h

theorem safe_fail {e : ε} {post : α → Session → Prop} (h : s.reader.Sound) :
    (fail e : Scan ε α).Safe s post :=
  ⟨.refl h, e, rfl⟩

theorem safe_emit {event : Event} (h : s.reader.Sound) :
    (emit event : Scan ε Unit).Safe s fun _ s' => s'.reader = s.reader :=
  ⟨.of_reader_eq h rfl, rfl⟩

theorem safe_reader_bind {next : Reader → Scan ε β} {post : β → Session → Prop}
    (rest : (next s.reader).Safe s post) : (reader >>= next).Safe s post := by
  rw [Safe, leads_bind]
  exact rest

theorem safe_sum_bind {a b : Nat} {next : Nat → Scan ε β} {post : β → Session → Prop}
    (hSum : a + b < 2 ^ 64) (rest : (next (a + b)).Safe s post) :
    (sum a b >>= next).Safe s post := by
  rw [Safe, leads_bind, leads_sum, if_pos hSum]
  exact rest

theorem safe_difference_bind {a b : Nat} {next : Nat → Scan ε β} {post : β → Session → Prop}
    (hOrder : b ≤ a) (rest : (next (a - b)).Safe s post) :
    (difference a b >>= next).Safe s post := by
  rw [Safe, leads_bind, leads_difference, if_pos hOrder]
  exact rest

theorem Safe.mapError {act : Scan ε' α} {f : ε' → ε} {post : α → Session → Prop}
    (h : act.Safe s post) : (mapError f act).Safe s post := by
  rw [Safe, leads_mapError]
  apply Leads.mono h (fun _ _ hDone => hDone)
  intro stop s' hStop
  obtain ⟨continues, e, rfl⟩ := hStop
  exact ⟨continues, f e, rfl⟩

/-- What an attempt delivers is known only when the attempted computation delivered it. -/
theorem Safe.attempt {act : Scan ε' α} {post : Except ε' α → Session → Prop}
    (h : act.Safe s fun a s' => post (.ok a) s')
    (recovered : ∀ e s', s.Continues s' → post (.error e) s') :
    (attempt act : Scan ε (Except ε' α)).Safe s post := by
  rw [Safe, leads_attempt]
  apply Leads.mono h (fun _ _ hDone => hDone)
  intro stop s' hStop
  obtain ⟨continues, e, rfl⟩ := hStop
  exact ⟨continues, recovered e s' continues⟩

theorem Safe.keeping {act : Scan ε α} {post : α → Session → Prop} (h : act.Safe s post)
    (keeps : act.KeepsCursor) :
    act.Safe s fun a s' => post a s' ∧ s'.reader.position = s.reader.position := by
  have hKeeps := keeps s
  unfold Safe Leads at *
  cases hAct : act s with
  | ok a s' =>
      rw [hAct] at h hKeeps
      exact ⟨h.1, h.2, hKeeps⟩
  | error e s' =>
      rw [hAct] at h
      exact h

theorem Safe.within {span : Span} {act : Scan ε α} {post : α → Session → Prop}
    (h : ∀ log, act.Safe ⟨s.reader, log⟩ fun a s' => ∀ log, post a ⟨s'.reader, log⟩) :
    (within span act).Safe s post := by
  rw [Safe, leads_within]
  apply Leads.mono (h #[])
  · intro a s' hDone
    exact ⟨⟨hDone.1.content_eq, hDone.1.limits_eq, hDone.1.sound⟩, hDone.2 _⟩
  · intro e s' hStop
    exact ⟨⟨hStop.1.content_eq, hStop.1.limits_eq, hStop.1.sound⟩, hStop.2⟩

end Scan

namespace Read

variable {s : Session}

theorem safe_seek {offset : Nat} (h : s.reader.Sound) :
    (seek offset).Safe s fun _ s' => s'.reader.position = offset := by
  rw [Scan.Safe, leads_seek]
  split
  case isTrue inside => exact ⟨⟨rfl, rfl, h.sought inside⟩, rfl⟩
  case isFalse => exact ⟨.refl h, _, rfl⟩

/-- A record that takes up room lies in the file. -/
theorem safe_recordAt {offset length : Nat} (h : s.reader.Sound) :
    (recordAt offset length).Safe s fun _ s' =>
      length = 0 ∨ offset + length ≤ s'.reader.size := by
  apply leads_recordAt_of_sound h
  · exact fun _ => ⟨⟨rfl, rfl, h⟩, _, rfl⟩
  · exact fun sound _ => ⟨⟨rfl, rfl, sound⟩, _, rfl⟩
  · intro sound hWhole _
    refine ⟨⟨rfl, rfl, sound⟩, ?_⟩
    have hSize := s.reader.size_bytesAt offset length
    change length = 0 ∨ offset + length ≤ s.reader.size
    omega

theorem safe_chunk {length : Nat} (h : s.reader.Sound) :
    (chunk length).Safe s fun _ _ => True := by
  apply leads_chunk_of_sound h
  · exact fun _ => ⟨⟨rfl, rfl, h⟩, _, rfl⟩
  · exact fun sound _ => ⟨⟨rfl, rfl, sound⟩, True.intro⟩

theorem safe_record {length : Nat} (h : s.reader.Sound) :
    (record length).Safe s fun _ s' =>
      s'.reader.position = s.reader.position + length := by
  apply leads_record_of_sound h
  · exact fun _ => ⟨⟨rfl, rfl, h⟩, _, rfl⟩
  · exact fun sound _ => ⟨⟨rfl, rfl, sound⟩, _, rfl⟩
  · exact fun sound _ _ => ⟨⟨rfl, rfl, sound⟩, rfl⟩

theorem safe_word32 (h : s.reader.Sound) :
    word32.Safe s fun _ s' => s'.reader.position = s.reader.position + 4 := by
  refine (safe_record h).bind ?_
  intro _ s₁ h₁ hRecord
  exact .pure h₁.sound hRecord

theorem safe_word64 (h : s.reader.Sound) :
    word64.Safe s fun _ s' => s'.reader.position = s.reader.position + 8 := by
  refine (safe_record h).bind ?_
  intro _ s₁ h₁ hRecord
  exact .pure h₁.sound hRecord

theorem safe_stringAt {offset maxLength : Nat} (h : s.reader.Sound) :
    (stringAt offset maxLength).Safe s fun _ _ => True := by
  apply leads_stringAt_of_sound h
  · exact fun _ => ⟨⟨rfl, rfl, h⟩, _, rfl⟩
  · exact fun _ => ⟨⟨rfl, rfl, h⟩, _, rfl⟩
  · exact fun sound _ => ⟨⟨rfl, rfl, sound⟩, True.intro⟩

end Read

namespace ImageScan

variable {α : Type} {s : Session} {post : α → Session → Prop}

theorem safe_reading {piece : Piece} {act : Read α} (h : act.Safe s post) :
    (reading piece act).Safe s post :=
  h.mapError

theorem safe_io {act : Read α} (h : act.Safe s post) : (io act).Safe s post :=
  h.mapError

theorem safe_reach {piece : Piece} {offset : Nat} (h : s.reader.Sound) :
    (reach piece offset).Safe s fun _ s' => s'.reader.position = offset :=
  (Read.safe_seek h).mapError

end ImageScan
end PortableExecutable
