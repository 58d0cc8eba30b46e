/-!
# UTF-16

Characters as one or two 16-bit units, each written with its low byte first.
-/

set_option autoImplicit false

namespace SchemaWire.Wire.Utf16

/-- The units of a character: its code, or a surrogate pair for a code past U+FFFF. -/
def encodeChar (c : Char) : List Nat :=
  let code := c.toNat
  if code < 0x10000 then [code]
  else [0xd800 + (code - 0x10000) / 0x400, 0xdc00 + (code - 0x10000) % 0x400]

def encode (text : List Char) : List Nat :=
  text.flatMap encodeChar

/-- The characters of units, unless a surrogate stands without its partner. -/
def decode? : List Nat → Option (List Char)
  | [] => some []
  | unit :: rest =>
    if unit < 0xd800 ∨ 0xe000 ≤ unit then do
      let others ← decode? rest
      return Char.ofNat unit :: others
    else if unit < 0xdc00 then
      match rest with
      | low :: rest =>
        if 0xdc00 ≤ low ∧ low < 0xe000 then do
          let others ← decode? rest
          return Char.ofNat (0x10000 + (unit - 0xd800) * 0x400 + (low - 0xdc00)) :: others
        else none
      | [] => none
    else none

def toBytes (units : List Nat) : List UInt8 :=
  units.flatMap fun unit => [UInt8.ofNat (unit % 256), UInt8.ofNat (unit / 256)]

def ofBytes : List UInt8 → List Nat
  | low :: high :: rest => (low.toNat + 256 * high.toNat) :: ofBytes rest
  | _ => []

end SchemaWire.Wire.Utf16
