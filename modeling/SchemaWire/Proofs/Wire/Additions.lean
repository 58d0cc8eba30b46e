import SchemaWire.Proofs.Wire.Locality
import SchemaWire.Wire.Item

/-!
# Positions in 64 bits

The reads once more, with another operation in place of the addition of a position and a count. On
buffers shorter than 2^63 bytes they are the same reads, whatever this operation does with sums that
do not fit into 64 bits: every position that a read moves to is inside the buffer, and a truncation
asks first whether the sum fits.
-/

set_option autoImplicit false

namespace SchemaWire.Wire

open Floating (Binary32 Binary64)

namespace Read.Adding

variable (add : Nat → Nat → Nat)

def take (count : Nat) : Read (List UInt8) := fun reader =>
  match splitExact? count reader.rest with
  | some (taken, rest) => .ok taken ⟨add reader.position count, rest⟩
  | none =>
    let need :=
      if reader.position + count < 2 ^ 64 then add reader.position count else 2 ^ 64 - 1
    .error (.truncated need reader.size) reader

def fixed (width : Nat) : Read Nat := do
  let bytes ← take add width
  return ofBigEndian bytes

def byte : Read UInt8 := do
  let value ← fixed add 1
  return UInt8.ofNat value

def binary32 : Read Binary32 := do
  let bits ← fixed add 4
  return ⟨UInt32.ofNat bits⟩

def binary64 : Read Binary64 := do
  let bits ← fixed add 8
  return ⟨UInt64.ofNat bits⟩

def varuintFrom (start : Nat) : Nat → Nat → UInt64 → Read UInt64
  | 0, _, _ => throw (.varuintTooLong start)
  | more + 1, index, value => do
    let group ← byte add
    let value := value ||| (group &&& 0x7f).toUInt64 <<< UInt64.ofNat (7 * index)
    if group &&& 0x80 = 0 then return value
    else varuintFrom start more (index + 1) value

def varuint : Read UInt64 := do
  let reader ← get
  varuintFrom add reader.position maxVaruintLength 0 0

def varint : Read Int64 := do
  let value ← varuint add
  return unzigzag value

/-- Whether a length can be added to the position is asked, but the sum is not used. -/
def prefixed : Read (List UInt8) := do
  let declared ← varuint add
  let length ← checkedLength declared
  take add length

def text (encoding : TextEncoding) : Read String := do
  let reader ← get
  let bytes ← prefixed add
  match textOfPayload encoding bytes with
  | .ok text => return text
  | .error reason => throw (.unreadableText reader.position encoding reason)

def request : Request → Read Found
  | .uint8 => return .item (.uint8 (← byte add))
  | .uint16 => return .item (.uint16 (UInt16.ofNat (← fixed add 2)))
  | .uint32 => return .item (.uint32 (UInt32.ofNat (← fixed add 4)))
  | .binary32 => return .item (.binary32 (← binary32 add))
  | .binary64 => return .item (.binary64 (← binary64 add))
  | .varuint => return .item (.varuint (← varuint add))
  | .varint => return .item (.varint (← varint add))
  | .raw count => return .item (.raw (← take add count))
  | .prefixed => return .prefixed (← prefixed add)
  | .checkedLength declared => return .length (← checkedLength declared)
  | .text encoding => return .item (.text encoding (← text add encoding))

def perform (asked : Request) (reader : Reader) : Except DecodeError Found × Reader :=
  match (request add asked).run reader with
  | .ok found next => (.ok found, next)
  | .error e next => (.error e, next)

def performAll (reader : Reader) : List Request → List (Except DecodeError Found × Reader)
  | [] => []
  | asked :: rest =>
    let (outcome, next) := perform add asked reader
    (outcome, next) :: performAll next rest

end Read.Adding

namespace Read

variable {α β : Type}

/-- The reads do the same on every buffer shorter than 2^63 bytes. -/
structure SameWithin (left right : Read α) : Prop where
  same {reader : Reader} : reader.size < 2 ^ 63 → left reader = right reader

namespace SameWithin

theorem refl (read : Read α) : SameWithin read read where
  same _ := rfl

theorem bind {left right : Read α} {leftNext rightNext : α → Read β} (isLocal : Local right)
    (first : SameWithin left right) (second : ∀ value, SameWithin (leftNext value) (rightNext value)) :
    SameWithin (left >>= leftNext) (right >>= rightNext) where
  same {reader} bounded := by
    rw [bind_apply, bind_apply, first.same bounded]
    cases outcome : right reader with
    | error e next => rfl
    | ok value next =>
        obtain ⟨taken, passes⟩ := isLocal.passes outcome
        exact (second value).same (by rwa [passes.size_eq])

theorem map {left right : Read α} (isLocal : Local right) (first : SameWithin left right)
    (result : α → β) :
    SameWithin (do let value ← left; return result value)
      (do let value ← right; return result value) :=
  bind isLocal first fun _ => refl _

end SameWithin

namespace Adding

variable {add : Nat → Nat → Nat}

/-- A position that a success moves to is within the buffer, and a failure asks first whether the
sum fits. -/
theorem sameWithin_take (agrees : ∀ a b, a + b < 2 ^ 64 → add a b = a + b) (count : Nat) :
    SameWithin (take add count) (Read.take count) where
  same {reader} bounded := by
    have whole : reader.size = reader.position + reader.rest.length := rfl
    unfold take Read.take
    rw [splitExact?_eq]
    by_cases enough : count ≤ reader.rest.length
    · have sum := agrees reader.position count (by omega)
      simp only [enough, ↓reduceIte, sum]
    · simp only [enough, ↓reduceIte]
      by_cases fits : reader.position + count < 2 ^ 64
      · rw [if_pos fits, agrees _ _ fits, Nat.min_eq_left (by omega)]
      · rw [if_neg fits, Nat.min_eq_right (by omega)]

variable (agrees : ∀ a b, a + b < 2 ^ 64 → add a b = a + b)
include agrees

theorem sameWithin_fixed (width : Nat) : SameWithin (fixed add width) (Read.fixed width) :=
  .map (.take width) (sameWithin_take agrees width) _

theorem sameWithin_byte : SameWithin (byte add) Read.byte :=
  .map (.fixed 1) (sameWithin_fixed agrees 1) _

theorem sameWithin_varuintFrom (start more index : Nat) (value : UInt64) :
    SameWithin (varuintFrom add start more index value)
      (Read.varuintFrom start more index value) := by
  induction more generalizing index value with
  | zero => exact .refl _
  | succ more ih =>
      refine .bind .byte (sameWithin_byte agrees) fun group => ?_
      dsimp only
      split
      · exact .refl _
      · exact ih _ _

theorem sameWithin_varuint : SameWithin (varuint add) Read.varuint where
  same {reader} bounded := (sameWithin_varuintFrom agrees reader.position _ _ _).same bounded

theorem sameWithin_prefixed : SameWithin (prefixed add) Read.prefixed :=
  .bind .varuint (sameWithin_varuint agrees) fun declared =>
    .bind (.checkedLength declared) (.refl _) fun length => sameWithin_take agrees length

theorem sameWithin_text (encoding : TextEncoding) :
    SameWithin (text add encoding) (Read.text encoding) where
  same {reader} bounded :=
    (SameWithin.bind .prefixed (sameWithin_prefixed agrees) fun bytes => .refl
      (readable encoding reader.position (textOfPayload encoding bytes))).same bounded

theorem sameWithin_request (asked : Request) : SameWithin (request add asked) asked.read := by
  cases asked with
  | uint8 => exact .map .byte (sameWithin_byte agrees) _
  | uint16 => exact .map (.fixed 2) (sameWithin_fixed agrees 2) _
  | uint32 => exact .map (.fixed 4) (sameWithin_fixed agrees 4) _
  | binary32 => exact .map .binary32 (.map (.fixed 4) (sameWithin_fixed agrees 4) _) _
  | binary64 => exact .map .binary64 (.map (.fixed 8) (sameWithin_fixed agrees 8) _) _
  | varuint => exact .map .varuint (sameWithin_varuint agrees) _
  | varint => exact .map .varint (.map .varuint (sameWithin_varuint agrees) _) _
  | raw count => exact .map (.take count) (sameWithin_take agrees count) _
  | prefixed => exact .map .prefixed (sameWithin_prefixed agrees) _
  | checkedLength declared => exact .refl _
  | text encoding => exact .map (.text encoding) (sameWithin_text agrees encoding) _

theorem perform_eq (asked : Request) {reader : Reader} (bounded : reader.size < 2 ^ 63) :
    perform add asked reader = asked.perform reader := by
  have same : (request add asked).run reader = asked.read.run reader :=
    (sameWithin_request agrees asked).same bounded
  cases outcome : asked.read.run reader <;> rw [perform, same, Request.perform, outcome]

end Adding

end Read

end SchemaWire.Wire
