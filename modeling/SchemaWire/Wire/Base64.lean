/-!
# Base64

The standard alphabet with required padding. Three bytes are four symbols of six bits; a shorter
last group is filled with the padding character, and the bits of its last symbol that belong to
no byte are zero.

Refusals depend on where in the text a fault stands, since all but the last one to eight
characters are examined without regard to padding. Nothing hangs on that but their messages:
`Standard` says what is relied on, and which texts stand for which bytes follows from it.
-/

set_option autoImplicit false

namespace SchemaWire.Wire.Base64

def padding : UInt8 := 0x3d

def symbol (value : Nat) : UInt8 :=
  if value < 26 then UInt8.ofNat (0x41 + value)
  else if value < 52 then UInt8.ofNat (0x61 + (value - 26))
  else if value < 62 then UInt8.ofNat (0x30 + (value - 52))
  else if value = 62 then 0x2b
  else 0x2f

def symbolValue? (byte : UInt8) : Option Nat :=
  if 0x41 ≤ byte ∧ byte ≤ 0x5a then some (byte.toNat - 0x41)
  else if 0x61 ≤ byte ∧ byte ≤ 0x7a then some (byte.toNat - 0x61 + 26)
  else if 0x30 ≤ byte ∧ byte ≤ 0x39 then some (byte.toNat - 0x30 + 52)
  else if byte = 0x2b then some 62
  else if byte = 0x2f then some 63
  else none

def encode : List UInt8 → List UInt8
  | a :: b :: c :: rest =>
    symbol (a.toNat / 4) :: symbol (a.toNat % 4 * 16 + b.toNat / 16) ::
      symbol (b.toNat % 16 * 4 + c.toNat / 64) :: symbol (c.toNat % 64) :: encode rest
  | [a, b] =>
    [symbol (a.toNat / 4), symbol (a.toNat % 4 * 16 + b.toNat / 16), symbol (b.toNat % 16 * 4),
      padding]
  | [a] => [symbol (a.toNat / 4), symbol (a.toNat % 4 * 16), padding, padding]
  | [] => []

/-- Why a text is not base64. Offsets count bytes of the text. -/
inductive Fault where
  | invalidByte (byte : UInt8) (offset : Nat)
  /-- One symbol is left over, which is less than a byte. -/
  | sixBitRemainder
  | invalidPadding
  /-- The last symbol has bits that belong to no byte. -/
  | invalidLastSymbol (byte : UInt8) (offset : Nat)
  deriving DecidableEq, Repr

def Fault.message : Fault → String
  | .invalidByte byte offset =>
    "Invalid byte " ++ toString byte.toNat ++ ", offset " ++ toString offset ++ "."
  | .sixBitRemainder => "Encoded text cannot have a 6-bit remainder."
  | .invalidPadding => "Invalid padding"
  | .invalidLastSymbol byte offset =>
    "Invalid last symbol " ++ toString byte.toNat ++ ", offset " ++ toString offset ++ "."

/-- The symbols of a text without padding that stands at an offset. -/
def symbols (offset : Nat) : List UInt8 → Except Fault (List Nat)
  | [] => .ok []
  | byte :: rest =>
    match symbolValue? byte with
    | some value => do
      let others ← symbols (offset + 1) rest
      return value :: others
    | none => .error (.invalidByte byte offset)

/-- The symbols of the last characters, which stand at offset `start`; `index` counts them, and
`firstPadding?` is the offset of the first padding character seen. Padding is refused in the first
half of a group, and after padding nothing else may come. -/
def lastSymbols (start index : Nat) (firstPadding? : Option Nat) :
    List UInt8 → Except Fault (List Nat)
  | [] => .ok []
  | byte :: rest =>
    if byte = padding then
      if index % 4 < 2 then .error (.invalidByte padding (firstPadding?.getD (start + index)))
      else lastSymbols start (index + 1) (some (firstPadding?.getD (start + index))) rest
    else
      match firstPadding? with
      | some offset => .error (.invalidByte padding offset)
      | none =>
        match symbolValue? byte with
        | some value => do
          let others ← lastSymbols start (index + 1) none rest
          return value :: others
        | none => .error (.invalidByte byte (start + index))

/-- The bytes of symbols. A last group of two or three symbols is one or two bytes. -/
def bytesOfSymbols : List Nat → List UInt8
  | a :: b :: c :: d :: rest =>
    UInt8.ofNat (a * 4 + b / 16) :: UInt8.ofNat (b % 16 * 16 + c / 4) ::
      UInt8.ofNat (c % 4 * 64 + d) :: bytesOfSymbols rest
  | [a, b, c] => [UInt8.ofNat (a * 4 + b / 16), UInt8.ofNat (b % 16 * 16 + c / 4)]
  | [a, b] => [UInt8.ofNat (a * 4 + b / 16)]
  | _ => []

/-- Whether the last of some symbols has bits that belong to no byte. -/
def hasLooseBits (values : List Nat) : Bool :=
  match values.getLast? with
  | none => false
  | some last =>
    if values.length % 4 = 2 then last % 16 != 0
    else if values.length % 4 = 3 then last % 4 != 0
    else false

def decode (text : List UInt8) : Except Fault (List UInt8) :=
  let length := text.length
  let start := 8 * ((length - 1) / 8)
  if length % 4 = 1 then
    let last := text.getLastD padding
    if last ≠ padding ∧ (symbolValue? last).isNone then .error (.invalidByte last (length - 1))
    else .error .sixBitRemainder
  else do
    let first ← symbols 0 (text.take start)
    let last ← lastSymbols start 0 none (text.drop start)
    if length % 4 ≠ 0 then .error .invalidPadding
    else if hasLooseBits last then
      .error (.invalidLastSymbol (symbol (last.getLastD 0)) (start + last.length - 1))
    else return bytesOfSymbols (first ++ last)

end SchemaWire.Wire.Base64
