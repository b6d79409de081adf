import PortableExecutable.Json.Scanner

/-!
Numbers in JSON text. Settings are whole numbers of 64 bits, written without fraction or exponent.
Any other number is unsuitable for them, except that one too large for a binary floating-point
number of 64 bits counts as malformed, since it has no value at all.
-/

namespace PortableExecutable

structure JsonNumber where
  negative : Bool
  /-- The digits before the point, without superfluous zeros in front. -/
  whole : List Nat
  /-- The digits behind the point, where there is one. -/
  fraction : Option (List Nat)
  /-- Sign and digits of the exponent, where there is one. -/
  exponent : Option (Bool × List Nat)

namespace JsonNumber

def digitsValue (digits : List Nat) : Nat := digits.foldl (fun n d => 10 * n + d) 0

/-- The number whose 53 leading binary digits are those of the nearest such number, a tie going to
the even one. -/
def roundTo53Bits (n : Nat) : Nat :=
  let unit := 1 <<< (n.log2 - 52)
  let low := n / unit
  let excess := n % unit
  if 2 * excess < unit ∨ (2 * excess = unit ∧ low % 2 = 0) then low * unit
  else (low + 1) * unit

/-- Whether a product of a 64-bit number and a power of ten, each rounded to 53 bits, rounds to
something past the largest floating-point number. -/
def isTooLarge (significand : Nat) (exponent : Int) : Bool :=
  significand ≠ 0 &&
    (exponent > 308 ||
      (exponent ≥ 0 &&
        roundTo53Bits significand * roundTo53Bits (Nat.pow 10 exponent.toNat) ≥
          1 <<< 1024 - 1 <<< 970))

/-- Appends digits to a 64-bit significand until one does not fit. Gives the significand and the
digits that were left over. -/
def gather : Nat → List Nat → Nat × List Nat
  | n, [] => (n, [])
  | n, d :: rest => if 10 * n + d < UInt64.size then gather (10 * n + d) rest else (n, d :: rest)

/-- The significand of at most 64 bits and the power of ten that stand for a number. Digits before
the point that did not fit raise the power, digits behind it that did lower it. -/
def scaled (x : JsonNumber) : Nat × Int :=
  let (n, dropped) := gather 0 x.whole
  let fraction := x.fraction.getD []
  let (m, unused) := gather n fraction
  (m, Int.ofNat dropped.length - Int.ofNat (fraction.length - unused.length))

/-- Whether a number lies past the largest floating-point number. An exponent of more than 31 bits
decides the matter on its own. -/
def isOutOfRange (x : JsonNumber) : Bool :=
  let (significand, scale) := x.scaled
  match x.exponent with
  | none => isTooLarge significand scale
  | some (negative, digits) =>
    let power := digitsValue digits
    if power ≥ 0x80000000 then significand ≠ 0 && !negative
    else isTooLarge significand (scale + if negative then -Int.ofNat power else Int.ofNat power)

def toUInt64 (x : JsonNumber) : Except JsonFault UInt64 :=
  if !x.negative && x.fraction.isNone && x.exponent.isNone && digitsValue x.whole < UInt64.size then
    .ok (UInt64.ofNat (digitsValue x.whole))
  else if x.isOutOfRange then .error .malformed
  else .error .unsuitable

end JsonNumber

namespace JsonScanner

def digitValue (c : Char) : Nat := c.toNat - 48

def digits (s : List Char) : List Nat × { r : List Char // r.length ≤ s.length } :=
  ((s.takeWhile Char.isDigit).map digitValue,
    ⟨s.dropWhile Char.isDigit, (List.dropWhile_sublist _).length_le⟩)

/-- The digits before the point. A zero in front of other digits is not allowed. -/
def whole (s : List Char) : Scanned (List Nat) s.length :=
  match s with
  | [] => .error .malformed
  | c :: s =>
    if c.isDigit then
      let (more, ⟨rest, _⟩) := digits s
      if c = '0' ∧ more ≠ [] then .error .malformed
      else .ok (digitValue c :: more, ⟨rest, by simp only [List.length_cons]; omega⟩)
    else .error .malformed

/-- A point and the digits behind it, of which there has to be one. -/
def fraction (s : List Char) :
    Except JsonFault (Option (List Nat) × { r : List Char // r.length ≤ s.length }) :=
  match s with
  | '.' :: s =>
    let (found, ⟨rest, _⟩) := digits s
    if found = [] then .error .malformed
    else .ok (some found, ⟨rest, by simp only [List.length_cons]; omega⟩)
  | s => .ok (none, ⟨s, Nat.le_refl _⟩)

/-- The digits of an exponent, of which there has to be one. -/
def exponentDigits (negative : Bool) (s : List Char) :
    Except JsonFault ((Bool × List Nat) × { r : List Char // r.length ≤ s.length }) :=
  let (found, rest) := digits s
  if found = [] then .error .malformed else .ok ((negative, found), rest)

def exponent (s : List Char) :
    Except JsonFault (Option (Bool × List Nat) × { r : List Char // r.length ≤ s.length }) :=
  match s with
  | [] => .ok (none, ⟨[], Nat.le_refl _⟩)
  | c :: s =>
    if c = 'e' ∨ c = 'E' then
      match s with
      | '-' :: s =>
        (exponentDigits true s).map fun (e, ⟨rest, _⟩) =>
          (some e, ⟨rest, by simp only [List.length_cons]; omega⟩)
      | '+' :: s =>
        (exponentDigits false s).map fun (e, ⟨rest, _⟩) =>
          (some e, ⟨rest, by simp only [List.length_cons]; omega⟩)
      | s =>
        (exponentDigits false s).map fun (e, ⟨rest, _⟩) =>
          (some e, ⟨rest, by simp only [List.length_cons]; omega⟩)
    else .ok (none, ⟨c :: s, Nat.le_refl _⟩)

def unsigned (negative : Bool) (s : List Char) : Scanned JsonNumber s.length := do
  let (whole, ⟨s₁, h₁⟩) ← whole s
  let (fraction, ⟨s₂, h₂⟩) ← fraction s₁
  let (exponent, ⟨s₃, h₃⟩) ← exponent s₂
  return ({ negative, whole, fraction, exponent }, ⟨s₃, by omega⟩)

def number (s : List Char) : Scanned JsonNumber s.length :=
  match s with
  | '-' :: s => (unsigned true s).widen (length_le_behind s)
  | s => unsigned false s

end JsonScanner
end PortableExecutable
