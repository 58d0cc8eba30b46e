/-!
# UTF-8

Characters as sequences of one to four bytes, and back. Bytes are read one at a time: a lead byte
says how many bytes are owed and which the next one may be, and a byte outside that range refuses
the sequence at once. So a refusal names the longest stretch that could have begun a character.
-/

set_option autoImplicit false

namespace SchemaWire.Wire.Utf8

def encodeChar (c : Char) : List UInt8 :=
  let code := c.toNat
  if code < 0x80 then [UInt8.ofNat code]
  else if code < 0x800 then [UInt8.ofNat (0xc0 + code / 64), UInt8.ofNat (0x80 + code % 64)]
  else if code < 0x10000 then
    [UInt8.ofNat (0xe0 + code / 4096), UInt8.ofNat (0x80 + code / 64 % 64),
      UInt8.ofNat (0x80 + code % 64)]
  else
    [UInt8.ofNat (0xf0 + code / 262144), UInt8.ofNat (0x80 + code / 4096 % 64),
      UInt8.ofNat (0x80 + code / 64 % 64), UInt8.ofNat (0x80 + code % 64)]

def encode (text : List Char) : List UInt8 :=
  text.flatMap encodeChar

/-- Why bytes are not UTF-8, with the index at which the faulty sequence begins. -/
inductive Fault where
  /-- So many bytes from the index on could begin a character, but not with the byte after them;
  a byte that begins no character counts as one. -/
  | invalid (index length : Nat)
  /-- The bytes end inside a sequence. -/
  | incomplete (index : Nat)
  deriving DecidableEq, Repr

def Fault.message : Fault → String
  | .invalid index length =>
    "invalid utf-8 sequence of " ++ toString length ++ " bytes from index " ++ toString index
  | .incomplete index => "incomplete utf-8 byte sequence from index " ++ toString index

/-- A sequence that is not finished: its index, how many of its bytes are read and how many are
owed, the least and the greatest byte that may come next, and the bits read so far. -/
structure Pending where
  index : Nat
  seen : Nat
  owed : Nat
  least : UInt8
  greatest : UInt8
  bits : Nat

/-- What a byte above 0x7f begins. The range of the second byte rules out overlong forms,
surrogates and numbers past U+10FFFF. -/
def begin? (index : Nat) (byte : UInt8) : Option Pending :=
  if 0xc2 ≤ byte ∧ byte ≤ 0xdf then some ⟨index, 1, 1, 0x80, 0xbf, byte.toNat - 0xc0⟩
  else if byte = 0xe0 then some ⟨index, 1, 2, 0xa0, 0xbf, 0⟩
  else if byte = 0xed then some ⟨index, 1, 2, 0x80, 0x9f, 0xd⟩
  else if 0xe1 ≤ byte ∧ byte ≤ 0xef then some ⟨index, 1, 2, 0x80, 0xbf, byte.toNat - 0xe0⟩
  else if byte = 0xf0 then some ⟨index, 1, 3, 0x90, 0xbf, 0⟩
  else if 0xf1 ≤ byte ∧ byte ≤ 0xf3 then some ⟨index, 1, 3, 0x80, 0xbf, byte.toNat - 0xf0⟩
  else if byte = 0xf4 then some ⟨index, 1, 3, 0x80, 0x8f, 4⟩
  else none

/-- The characters of the bytes from an index on, after an unfinished sequence if there is one. -/
def decodeFrom (index : Nat) (pending : Option Pending) : List UInt8 → Except Fault (List Char)
  | [] =>
    match pending with
    | none => .ok []
    | some p => .error (.incomplete p.index)
  | byte :: rest =>
    match pending with
    | none =>
      if byte < 0x80 then do
        let others ← decodeFrom (index + 1) none rest
        return Char.ofNat byte.toNat :: others
      else
        match begin? index byte with
        | some p => decodeFrom (index + 1) (some p) rest
        | none => .error (.invalid index 1)
    | some p =>
      if p.least ≤ byte ∧ byte ≤ p.greatest then
        let bits := p.bits * 64 + (byte.toNat - 0x80)
        if p.owed = 1 then do
          let others ← decodeFrom (index + 1) none rest
          return Char.ofNat bits :: others
        else
          decodeFrom (index + 1) (some ⟨p.index, p.seen + 1, p.owed - 1, 0x80, 0xbf, bits⟩) rest
      else .error (.invalid p.index p.seen)

def decode (bytes : List UInt8) : Except Fault (List Char) :=
  decodeFrom 0 none bytes

end SchemaWire.Wire.Utf8
