/-!
Reading bytes as UTF-8 without ever failing. Each maximal run of bytes that begins a character but
does not finish it, and each byte that begins none, becomes one replacement character.
-/

namespace PortableExecutable
namespace Utf8

def replacement : Char := '\ufffd'

/-- A character whose first bytes were read: `value` holds the bits so far, `missing` counts the
bytes still to come, and the next one has to lie between `low` and `high`. -/
structure Pending where
  value : Nat
  missing : Nat
  low : Nat
  high : Nat

/-- What a byte says that stands at the start of a character. The range of the second byte leaves
out overlong forms, surrogates and numbers past the last code point. -/
def lead (b : Nat) : Option Pending :=
  if 0xC2 ≤ b ∧ b ≤ 0xDF then some ⟨b - 0xC0, 1, 0x80, 0xBF⟩
  else if b = 0xE0 then some ⟨0, 2, 0xA0, 0xBF⟩
  else if b = 0xED then some ⟨0xD, 2, 0x80, 0x9F⟩
  else if 0xE1 ≤ b ∧ b ≤ 0xEF then some ⟨b - 0xE0, 2, 0x80, 0xBF⟩
  else if b = 0xF0 then some ⟨0, 3, 0x90, 0xBF⟩
  else if 0xF1 ≤ b ∧ b ≤ 0xF3 then some ⟨b - 0xF0, 3, 0x80, 0xBF⟩
  else if b = 0xF4 then some ⟨4, 3, 0x80, 0x8F⟩
  else none

/-- Starts a character: what can be written at once, and what has to wait for more bytes. -/
def start (b : Nat) : List Char × Option Pending :=
  if b < 0x80 then ([Char.ofNat b], none)
  else match lead b with
    | some p => ([], some p)
    | none => ([replacement], none)

/-- Takes one continuation byte, or gives up on the pending character and starts afresh. -/
def step (state : Option Pending) (b : Nat) : List Char × Option Pending :=
  match state with
  | none => start b
  | some p =>
    if p.low ≤ b ∧ b ≤ p.high then
      let value := p.value * 64 + (b - 0x80)
      if p.missing = 1 then ([Char.ofNat value], none)
      else ([], some ⟨value, p.missing - 1, 0x80, 0xBF⟩)
    else
      let (written, next) := start b
      (replacement :: written, next)

def decodeFrom : Option Pending → List UInt8 → List Char
  | none, [] => []
  | some _, [] => [replacement]
  | state, b :: rest =>
    let (written, next) := step state b.toNat
    written ++ decodeFrom next rest

def decode (bytes : List UInt8) : String :=
  String.ofList (decodeFrom none bytes)

end Utf8
end PortableExecutable
