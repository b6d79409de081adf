import PortableExecutable.Text.Utf16

/-!
Taking JSON text apart from the front. Every scanner gives back the rest of the text, which is
shorter than what it was given, so that scanning ends. A text may be malformed, or well formed but
not what was asked for; the first fault from the start of the text counts.
-/

namespace PortableExecutable

inductive JsonFault where
  /-- The text is cut short or breaks the grammar. -/
  | malformed
  /-- The text is not of the form that was asked for. -/
  | unsuitable
  deriving DecidableEq, Repr

namespace JsonScanner

/-- What follows a part of a text of length `n`. -/
abbrev Rest (n : Nat) := { s : List Char // s.length < n }

def Rest.widen {m n : Nat} (h : m ≤ n) (r : Rest m) : Rest n :=
  ⟨r.1, Nat.lt_of_lt_of_le r.2 h⟩

/-- The outcome of scanning a text of length `n`. -/
abbrev Scanned (α : Type) (n : Nat) := Except JsonFault (α × Rest n)

def Scanned.widen {α : Type} {m n : Nat} (h : m ≤ n) (r : Scanned α m) : Scanned α n :=
  r.map fun (a, rest) => (a, rest.widen h)

theorem length_le_behind (s : List Char) : s.length ≤ s.length + 1 :=
  Nat.le_succ s.length

def isBlank (c : Char) : Bool := c == ' ' || c == '\n' || c == '\t' || c == '\r'

def skipBlanks (s : List Char) : List Char := s.dropWhile isBlank

theorem length_skipBlanks_le (s : List Char) : (skipBlanks s).length ≤ s.length :=
  (List.dropWhile_sublist isBlank).length_le

def word (expected : List Char) (s : List Char) : Option { r : List Char // r.length ≤ s.length } :=
  if expected.isPrefixOf s then some ⟨s.drop expected.length, by simp⟩ else none

/-- An element of a string literal: a character as it is, or the 16-bit unit of an escape. -/
inductive Unit16 where
  | plain (c : Char)
  | escaped (u : UInt16)

def hexValue? (c : Char) : Option Nat :=
  if '0' ≤ c ∧ c ≤ '9' then some (c.toNat - 48)
  else if 'a' ≤ c ∧ c ≤ 'f' then some (c.toNat - 87)
  else if 'A' ≤ c ∧ c ≤ 'F' then some (c.toNat - 55)
  else none

def unitOfHex? (a b c d : Char) : Option UInt16 := do
  return UInt16.ofNat
    ((((← hexValue? a) * 16 + (← hexValue? b)) * 16 + (← hexValue? c)) * 16 + (← hexValue? d))

def shortEscape? (c : Char) : Option Char :=
  if c = '"' || c = '\\' || c = '/' then some c
  else if c = 'b' then some '\x08'
  else if c = 'f' then some '\x0c'
  else if c = 'n' then some '\n'
  else if c = 'r' then some '\r'
  else if c = 't' then some '\t'
  else none

/-- The elements of a string up to its closing quote, the opening one being behind us. -/
def string : (s : List Char) → Scanned (List Unit16) s.length
  | [] => .error .malformed
  | c :: s =>
    if c = '"' then .ok ([], ⟨s, by simp⟩)
    else if c = '\\' then
      match s with
      | 'u' :: d₁ :: d₂ :: d₃ :: d₄ :: s =>
        match unitOfHex? d₁ d₂ d₃ d₄ with
        | none => .error .malformed
        | some u =>
          (string s).map fun (units, rest) =>
            (.escaped u :: units, rest.widen (by simp only [List.length_cons]; omega))
      | e :: s =>
        match shortEscape? e with
        | none => .error .malformed
        | some c =>
          (string s).map fun (units, rest) =>
            (.plain c :: units, rest.widen (by simp only [List.length_cons]; omega))
      | [] => .error .malformed
    else if c.toNat < 32 then .error .malformed
    else
      (string s).map fun (units, rest) => (.plain c :: units, rest.widen (length_le_behind s))

/-- The characters of a string. Escaped surrogates have to come in pairs. -/
def text? : List Unit16 → Option (List Char)
  | [] => some []
  | .plain c :: rest => (text? rest).map (c :: ·)
  | .escaped u :: .escaped v :: rest =>
    if Utf16.isHighSurrogate u then
      if Utf16.isLowSurrogate v then (text? rest).map (Utf16.pair u v :: ·) else none
    else if Utf16.isLowSurrogate u then none
    else (text? (.escaped v :: rest)).map (Char.ofNat u.toNat :: ·)
  | .escaped u :: rest =>
    if Utf16.isHighSurrogate u || Utf16.isLowSurrogate u then none
    else (text? rest).map (Char.ofNat u.toNat :: ·)

end JsonScanner
end PortableExecutable
