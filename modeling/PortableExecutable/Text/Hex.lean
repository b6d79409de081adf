/-!
Hexadecimal text, always with lower-case digits: whole byte strings, single bytes in a list, and
numbers with the mark `0x`.
-/

namespace PortableExecutable
namespace Hex

def digit (n : Nat) : Char :=
  if n < 10 then Char.ofNat ('0'.toNat + n) else Char.ofNat ('a'.toNat + (n - 10))

def byteChars (b : UInt8) : List Char :=
  [digit (b.toNat / 16), digit (b.toNat % 16)]

/-- Two digits a byte, without separators. -/
def ofBytes (bytes : List UInt8) : String :=
  String.ofList (bytes.flatMap byteChars)

/-- Two digits a byte in brackets, as in `[4d, 00]`. -/
def listOfBytes (bytes : List UInt8) : String :=
  "[" ++ ", ".intercalate (bytes.map fun b => String.ofList (byteChars b)) ++ "]"

/-- The digits of a number, most significant first, in front of those already written. -/
def digitsOnto (n : Nat) (written : List Char) : List Char :=
  if n < 16 then digit n :: written
  else digitsOnto (n / 16) (digit (n % 16) :: written)
termination_by n
decreasing_by omega

/-- A number behind the mark `0x`, filled with zeros to at least `places` digits. -/
def ofNat (n : Nat) (places : Nat := 1) : String :=
  let digits := digitsOnto n []
  "0x" ++ String.ofList (List.replicate (places - digits.length) '0' ++ digits)

end Hex
end PortableExecutable
