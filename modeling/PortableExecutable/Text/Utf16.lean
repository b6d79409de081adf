/-!
Reading 16-bit units as UTF-16 without ever failing: two units that form a surrogate pair are one
character, and a surrogate outside a pair becomes one replacement character.
-/

namespace PortableExecutable
namespace Utf16

def isHighSurrogate (u : UInt16) : Bool := 0xD800 ≤ u.toNat && u.toNat ≤ 0xDBFF

def isLowSurrogate (u : UInt16) : Bool := 0xDC00 ≤ u.toNat && u.toNat ≤ 0xDFFF

def single (u : UInt16) : Char :=
  if isHighSurrogate u || isLowSurrogate u then '\ufffd' else Char.ofNat u.toNat

def pair (high low : UInt16) : Char :=
  Char.ofNat (0x10000 + (high.toNat - 0xD800) * 0x400 + (low.toNat - 0xDC00))

def chars : List UInt16 → List Char
  | [] => []
  | [u] => [single u]
  | u :: v :: rest =>
    if isHighSurrogate u && isLowSurrogate v then pair u v :: chars rest
    else single u :: chars (v :: rest)

def decode (units : List UInt16) : String :=
  String.ofList (chars units)

end Utf16
end PortableExecutable
