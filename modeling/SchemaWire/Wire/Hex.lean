/-!
# Hexadecimal text

Two digits for each byte, the high half first. Digits are read in either case and written in lower
case.
-/

set_option autoImplicit false

namespace SchemaWire.Wire.Hex

def digitValue? (c : Char) : Option Nat :=
  if '0' ≤ c ∧ c ≤ '9' then some (c.toNat - '0'.toNat)
  else if 'a' ≤ c ∧ c ≤ 'f' then some (c.toNat - 'a'.toNat + 10)
  else if 'A' ≤ c ∧ c ≤ 'F' then some (c.toNat - 'A'.toNat + 10)
  else none

def digit (value : Nat) : Char :=
  if value < 10 then Char.ofNat ('0'.toNat + value) else Char.ofNat ('a'.toNat + (value - 10))

def encode (bytes : List UInt8) : List Char :=
  bytes.flatMap fun byte => [digit (byte.toNat / 16), digit (byte.toNat % 16)]

def firstInvalid? (text : List Char) : Option Char :=
  text.find? fun c => (digitValue? c).isNone

def decode : List Char → List UInt8
  | high :: low :: rest =>
    UInt8.ofNat (16 * (digitValue? high).getD 0 + (digitValue? low).getD 0) :: decode rest
  | _ => []

end SchemaWire.Wire.Hex
