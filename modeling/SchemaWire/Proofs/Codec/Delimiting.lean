import SchemaWire.Proofs.Codec.Steps
import SchemaWire.Proofs.Wire.Locality

/-!
# Encodings delimit themselves

Where the root is not a sequence, what is read of a value does not depend on the bytes after it.
So no accepted buffer begins another one: one that is cut short asks for more bytes, and for no
more than were cut off, and one that goes on has trailing bytes.
-/

set_option autoImplicit false

namespace SchemaWire.Codec

open Outcome
open Schema (AliasTable Definition Layout Plan)
open Wire (Read Reader DecodeError)

/-! ## Counts -/

def remainingAtLeast (count : Nat) : Read Nat := do
  let reader ← get
  if reader.remaining < count then throw (.truncated (reader.position + count) reader.size)
  else return count

theorem readCount_eq : readCount = (do
    let declared ← Read.varuint
    let count ← Read.checkedLength declared
    remainingAtLeast count) :=
  rfl

theorem remainingAtLeast_apply (count : Nat) (reader : Reader) :
    remainingAtLeast count reader =
      if reader.remaining < count then
        .error (.truncated (reader.position + count) reader.size) reader
      else .ok count reader := by
  have unfolded : remainingAtLeast count reader =
      (if reader.remaining < count then throw (.truncated (reader.position + count) reader.size)
        else pure count : Read Nat) reader := rfl
  rw [unfolded]
  split <;> rfl

theorem remainingAtLeast_eq_ok_iff {count found : Nat} {reader next : Reader} :
    remainingAtLeast count reader = .ok found next ↔
      count ≤ reader.remaining ∧ found = count ∧ next = reader := by
  rw [remainingAtLeast_apply]
  split
  · rename_i short
    constructor
    · intro failure
      cases failure
    · rintro ⟨enough, -⟩
      omega
  · rename_i enough
    constructor
    · intro success
      cases success
      exact ⟨Nat.le_of_not_lt enough, rfl, rfl⟩
    · rintro ⟨-, rfl, rfl⟩
      rfl

/-- A count that is greater than the number of bytes that are left asks for a byte for each
element. -/
theorem local_remainingAtLeast (count : Nat) : Read.Local (remainingAtLeast count) where
  passes success := by
    obtain ⟨-, -, rfl⟩ := remainingAtLeast_eq_ok_iff.mp success
    exact ⟨[], Reader.Passes.nil_iff.mpr rfl⟩
  succeeds {reader next value} success more := by
    obtain ⟨enough, rfl, rfl⟩ := remainingAtLeast_eq_ok_iff.mp success
    refine remainingAtLeast_eq_ok_iff.mpr ⟨Nat.le_trans enough ?_, rfl, rfl⟩
    simp [Reader.remaining, Reader.extend]
  truncates {reader next need size} _ failure := by
    rw [remainingAtLeast_apply] at failure
    split at failure
    · rename_i short
      cases failure
      have whole : reader.size = reader.position + reader.remaining := rfl
      refine ⟨rfl, by omega, fun more found after success => ?_⟩
      obtain ⟨enough, -⟩ := remainingAtLeast_eq_ok_iff.mp success
      have longer : (reader.extend more).size = reader.position + (reader.extend more).remaining :=
        rfl
      omega
    · cases failure
  refuses failure final := by
    rw [remainingAtLeast_apply] at failure
    split at failure
    · cases failure
      exact (final trivial).elim
    · cases failure

theorem local_readCount : Read.Local readCount := by
  rw [readCount_eq]
  exact Read.Local.varuint.bind fun declared =>
    (Read.Local.checkedLength declared).bind fun count => local_remainingAtLeast count

/-! ## Layouts -/

theorem local_readLeaf (encoding : TextEncoding) (type : Primitive) :
    Read.Local (readLeaf encoding type) := by
  cases type with
  | boolean => exact Read.Local.byte.bind fun _ => .pure _
  | int8 | uint8 | int16 | uint16 | int32 | uint32 =>
      exact (Read.Local.fixed _).bind fun _ => .pure _
  | float32 => exact Read.Local.binary32.bind fun _ => .pure _
  | float64 => exact Read.Local.binary64.bind fun _ => .pure _
  | varuint => exact Read.Local.varuint.bind fun _ => .pure _
  | varint => exact Read.Local.varint.bind fun _ => .pure _
  | string => exact (Read.Local.text encoding).bind fun _ => .pure _
  | buffer => exact Read.Local.prefixed.bind fun _ => .pure _

theorem local_readFields {encoding : TextEncoding} {fields : List (String × Layout)}
    (each : ∀ field ∈ fields, Read.Local (readLayout encoding true field.2)) :
    Read.Local (readFields encoding fields) := by
  induction fields with
  | nil => exact .pure _
  | cons field rest ih =>
      obtain ⟨first, others⟩ := List.forall_mem_cons.mp each
      exact first.bind fun _ => (ih others).bind fun _ => .pure _

theorem local_readHeads {encoding : TextEncoding} {heads : List Layout}
    (each : ∀ head ∈ heads, Read.Local (readLayout encoding true head)) :
    Read.Local (readHeads encoding heads) := by
  induction heads with
  | nil => exact .pure _
  | cons head rest ih =>
      obtain ⟨first, others⟩ := List.forall_mem_cons.mp each
      exact first.bind fun _ => (ih others).bind fun _ => .pure _

theorem local_readLayout (encoding : TextEncoding) (layout : Layout) :
    Read.Local (readLayout encoding true layout) := by
  induction layout with
  | leaf type => exact local_readLeaf encoding type
  | mapping fields ih => exact (local_readFields ih).bind fun _ => .pure _
  | sequence heads tail headsIh tailIh =>
      refine (local_readHeads headsIh).bind fun first => ?_
      exact local_readCount.bind fun count => (tailIh.times count).bind fun _ => .pure _

/-- Only a sequence at the root goes on to the end of the bytes. -/
theorem readLayout_counted_irrel (encoding : TextEncoding) {layout : Layout}
    (single : ∀ heads tail, layout ≠ .sequence heads tail) :
    readLayout encoding false layout = readLayout encoding true layout := by
  cases layout with
  | leaf type => rfl
  | mapping fields => rfl
  | sequence heads tail => exact absurd rfl (single heads tail)

theorem layout_ne_sequence {aliases : AliasTable} {definition : Definition} {layout : Layout}
    (laidOut : definition.layout aliases = .ok layout)
    (single : ∀ items, definition ≠ .sequence items) :
    ∀ heads tail, layout ≠ .sequence heads tail := by
  intro heads tail same
  obtain ⟨items, sequence⟩ := (Schema.exists_sequence_iff laidOut).mp ⟨heads, tail, same⟩
  exact single items sequence

/-! ## Buffers -/

/-- Accepted buffers of a root that is no sequence are free of prefixes. The bound on the buffer is
that of every slice of bytes in memory. -/
theorem decode_delimited {aliases : AliasTable} {definition : Definition} {plan : Plan}
    (compiled : definition.compile aliases = .ok plan)
    (single : ∀ items, definition ≠ .sequence items) {options : Options} {bytes : List UInt8}
    {value : Value} (bounded : bytes.length < 2 ^ 63)
    (decoded : decode ⟨plan, options⟩ bytes = .ok value) :
    (∀ front, front <+: bytes → front ≠ bytes → ∃ need,
      decode ⟨plan, options⟩ front = .error (.truncated need front.length) ∧
        front.length < need ∧ need ≤ bytes.length) ∧
    ∀ more, more ≠ [] →
      decode ⟨plan, options⟩ (bytes ++ more) = .error (.trailing more.length) := by
  obtain ⟨layout, laidOut, rfl⟩ := Definition.compile_eq_ok_iff.mp compiled
  have readOnce := readLayout_counted_irrel options.encoding (layout_ne_sequence laidOut single)
  have isLocal := local_readLayout options.encoding layout
  rw [← readOnce] at isLocal
  obtain ⟨next, success, exhausted⟩ := decode_eq_ok_iff.mp decoded
  constructor
  · rintro front ⟨more, rfl⟩ proper
    have cut : more ≠ [] := by
      rintro rfl
      exact proper (List.append_nil front).symm
    obtain ⟨need, after, outcome, short, enough⟩ := isLocal.front cut bounded success exhausted
    refine ⟨need, ?_, short, enough⟩
    rw [decode_plan, outcome]
  · intro more added
    have longer := isLocal.succeeds success more
    have whole : Reader.ofBytes (bytes ++ more) = (Reader.ofBytes bytes).extend more := rfl
    rw [decode_plan, whole, longer]
    have rest : (next.extend more).rest = more := by
      rw [Reader.extend, exhausted, List.nil_append]
    simp [Reader.isExhausted, Reader.remaining, rest, added]

theorem decode_delimited_pair :
    decode ⟨Layout.plan (.mapping [("id", .leaf .varuint), ("name", .leaf .string)]), .utf8, false⟩
      [172, 2, 1, 97] = .ok (.mapping [("id", .integer 300), ("name", .text "a")]) ∧
    (∀ front, front <+: [172, 2, 1, 97] → front ≠ [172, 2, 1, 97] → ∃ need,
      decode ⟨Layout.plan (.mapping [("id", .leaf .varuint), ("name", .leaf .string)]), .utf8,
        false⟩ front = .error (.truncated need front.length) ∧ front.length < need ∧ need ≤ 4) := by
  have compiled : (Definition.mapping [("id", .type "varuint"), ("name", .type "string")]).compile
      .initial = .ok (Layout.plan
        (.mapping [("id", .leaf .varuint), ("name", .leaf .string)])) := rfl
  have decoded : decode ⟨Layout.plan
      (.mapping [("id", .leaf .varuint), ("name", .leaf .string)]), .utf8, false⟩
      [172, 2, 1, 97] = .ok (.mapping [("id", .integer 300), ("name", .text "a")]) := rfl
  exact ⟨decoded, (decode_delimited compiled (fun _ same => by cases same) (by decide) decoded).1⟩

end SchemaWire.Codec
