import SchemaWire.Proofs.Codec.Streams
import SchemaWire.Proofs.Wire.Failures

/-!
# Buffers that are refused

What a decoding error says about the buffer and about every longer one. A truncated buffer may go
on to an accepted one, but to none that is shorter than it asks for. Trailing bytes stand behind an
accepted buffer. Every other error is final: it stays the same error whatever bytes are added.
-/

set_option autoImplicit false

namespace SchemaWire.Codec

open Schema (AliasTable Definition Layout Plan)
open Wire (DecodeError DeclaresTooMuch Read Reader)

/-! ## Refused lengths -/

theorem declared_readLeaf (encoding : TextEncoding) (type : Primitive) :
    Read.Declared (readLeaf encoding type) := by
  cases type with
  | boolean => exact Read.Declared.byte.map _
  | int8 | uint8 | int16 | uint16 | int32 | uint32 => exact (Read.Declared.fixed _).map _
  | float32 | float64 => exact ((Read.Declared.fixed _).map _).map _
  | varuint => exact Read.Declared.varuint.map _
  | varint => exact (Read.Declared.varuint.map _).map _
  | string => exact (Read.Declared.text encoding).map _
  | buffer => exact Read.Declared.prefixed.map _

theorem declared_counted {α : Type} {rest : Nat → Read α}
    (after : ∀ count, Read.Declared (rest count)) :
    Read.Declared (do let count ← readCount; rest count) := by
  have checked : (do let count ← readCount; rest count) = (do
      let declared ← Read.varuint
      let count ← Read.checkedLength declared
      let enough ← remainingAtLeast count
      rest enough) := by
    simp only [readCount_eq, bind_assoc]
  rw [checked]
  refine .length fun count => .bind (local_remainingAtLeast count) ⟨?_⟩ after
  intro reader next e _ failure
  rw [remainingAtLeast_apply] at failure
  split at failure <;> cases failure
  trivial

theorem declared_readFields {encoding : TextEncoding} {fields : List (String × Layout)}
    (each : ∀ field ∈ fields, Read.Declared (readLayout encoding true field.2)) :
    Read.Declared (readFields encoding fields) := by
  induction fields with
  | nil => exact .pure _
  | cons field rest ih =>
      obtain ⟨first, others⟩ := List.forall_mem_cons.mp each
      exact .bind (local_readLayout encoding field.2) first fun _ => (ih others).map _

theorem declared_readHeads {encoding : TextEncoding} {heads : List Layout}
    (each : ∀ head ∈ heads, Read.Declared (readLayout encoding true head)) :
    Read.Declared (readHeads encoding heads) := by
  induction heads with
  | nil => exact .pure _
  | cons head rest ih =>
      obtain ⟨first, others⟩ := List.forall_mem_cons.mp each
      exact .bind (local_readLayout encoding head) first fun _ => (ih others).map _

/-- A length that is refused for being past every possible buffer is declared by the bytes, at
whatever depth it stands. -/
theorem declared_readLayout (encoding : TextEncoding) (layout : Layout) :
    ∀ counted : Bool, Read.Declared (readLayout encoding counted layout) := by
  induction layout with
  | leaf type => exact fun counted => declared_readLeaf encoding type
  | mapping fields ih =>
      exact fun counted => (declared_readFields fun field member => ih field member true).map _
  | sequence heads tail headsIh tailIh =>
      intro counted
      have isLocal := local_readLayout encoding tail
      refine .bind (local_readHeads fun head _ => local_readLayout encoding head)
        (declared_readHeads fun head member => headsIh head member true) fun first => ?_
      cases counted with
      | true =>
          simp only [↓reduceIte]
          exact declared_counted fun count => (Read.Declared.times isLocal (tailIh true) count).map _
      | false => exact (Read.Declared.toEnd isLocal (tailIh true)).map _

/-! ## Longer buffers -/

theorem failsLocally_readLayout (encoding : TextEncoding) {layout : Layout}
    (wellFormed : layout.WellFormed) : Read.FailsLocally (readLayout encoding false layout) := by
  cases wellFormed with
  | leaf type => exact (local_readLeaf encoding type).failsLocally
  | @mapping fields nonempty distinct each =>
      exact (local_readLayout encoding (.mapping fields)).failsLocally
  | sequence each last =>
      rw [readRoot_eq]
      refine .bind (local_readHeads fun head _ => local_readLayout encoding head) fun first => ?_
      exact (Read.FailsLocally.toEnd (local_readLayout encoding _)
        (advances_readLayout encoding last)).map _

/-- A failure of decoding is one of reading, unless bytes are left over. -/
theorem decode_eq_error_iff {options : Options} {layout : Layout} {bytes : List UInt8}
    {e : DecodeError} (untrailing : ∀ remaining, e ≠ .trailing remaining) :
    decode ⟨layout.plan, options⟩ bytes = .error e ↔
      ∃ after, readLayout options.encoding false layout (.ofBytes bytes) = .error e after := by
  rw [decode_plan]
  cases readLayout options.encoding false layout (.ofBytes bytes) with
  | error found after => simp
  | ok value next =>
      constructor
      · intro failure
        dsimp only at failure
        split at failure
        · cases failure
        · cases failure
          exact absurd rfl (untrailing _)
      · rintro ⟨after, impossible⟩
        cases impossible

/-! ## Left-over bytes -/

/-- Bytes are left over behind bytes that are accepted. -/
theorem decode_take_of_trailing {options : Options} {layout : Layout}
    (wellFormed : layout.WellFormed) (single : ∀ heads tail, layout ≠ .sequence heads tail)
    {bytes : List UInt8} (bounded : bytes.length < 2 ^ 63) {remaining : Nat}
    (failure : decode ⟨layout.plan, options⟩ bytes = .error (.trailing remaining)) :
    1 ≤ remaining ∧ remaining ≤ bytes.length ∧
      ∃ value, decode ⟨layout.plan, options⟩ (bytes.take (bytes.length - remaining)) = .ok value := by
  have readOnce := readLayout_counted_irrel options.encoding single
  have accepts := accepts_readLayout options.encoding wellFormed
  have size : (Reader.ofBytes bytes).size < 2 ^ 63 := by
    rwa [Reader.size, Reader.ofBytes, Reader.remaining, Nat.zero_add]
  rw [decode_plan, readOnce] at failure
  cases outcome : readLayout options.encoding true layout (.ofBytes bytes) with
  | error e after =>
      rw [outcome] at failure
      cases failure
      exact ((ensures_readLayout options.encoding wellFormed true).error outcome).elim
  | ok value next =>
      simp only [outcome] at failure
      split at failure
      · cases failure
      · rename_i unfinished
        cases failure
        obtain ⟨pieces, form, passes⟩ := (accepts.ok_iff size trivial).mp outcome
        have whole : bytes = joined pieces ++ next.rest := passes.rest
        have some : next.remaining ≠ 0 := fun none => unfinished (Read.isExhausted_iff.mpr none)
        have length : bytes.length = (joined pieces).length + next.remaining := by
          rw [whole, List.length_append, Reader.remaining]
        have front : bytes.take (bytes.length - next.remaining) = joined pieces := by
          rw [length, Nat.add_sub_cancel, whole, List.take_left]
        refine ⟨by omega, by omega, value, ?_⟩
        have accepted : readLayout options.encoding true layout ⟨0, joined pieces ++ []⟩ =
            .ok value ⟨0 + (joined pieces).length, []⟩ :=
          accepts.ok_of_form form (by rw [List.append_nil]; omega)
        rw [List.append_nil] at accepted
        rw [front, decode_eq_ok_iff, readOnce]
        exact ⟨_, accepted, rfl⟩

theorem trailing_of_decode {aliases : AliasTable} {definition : Definition} {layout : Layout}
    (laidOut : definition.layout aliases = .ok layout) {options : Options} {bytes : List UInt8}
    (bounded : bytes.length < 2 ^ 63) {remaining : Nat}
    (failure : decode ⟨layout.plan, options⟩ bytes = .error (.trailing remaining)) :
    (∀ items, definition ≠ .sequence items) ∧ 1 ≤ remaining ∧ remaining ≤ bytes.length ∧
      ∃ value,
        decode ⟨layout.plan, options⟩ (bytes.take (bytes.length - remaining)) = .ok value := by
  have wellFormed := Definition.layout_wellFormed laidOut
  have single : ∀ heads tail, layout ≠ .sequence heads tail := by
    rintro heads tail rfl
    exact decode_ne_trailing wellFormed bytes remaining failure
  refine ⟨?_, decode_take_of_trailing wellFormed single bounded failure⟩
  rintro items sequence
  obtain ⟨heads, tail, same⟩ := (Schema.exists_sequence_iff laidOut).mpr ⟨items, sequence⟩
  exact single heads tail same

/-! ## Every error -/

section

variable {options : Options} {layout : Layout} {bytes : List UInt8}

theorem size_ofBytes (bytes : List UInt8) : (Reader.ofBytes bytes).size = bytes.length :=
  Nat.zero_add _

theorem extend_ofBytes (bytes more : List UInt8) :
    (Reader.ofBytes bytes).extend more = .ofBytes (bytes ++ more) :=
  rfl

/-- A truncated buffer does not ask for more than any buffer has that goes on from it. -/
theorem truncation_of_decode (wellFormed : layout.WellFormed) (bounded : bytes.length < 2 ^ 63)
    {need size : Nat}
    (failure : decode ⟨layout.plan, options⟩ bytes = .error (.truncated need size)) :
    size = bytes.length ∧ bytes.length < need ∧
      ∀ more value, decode ⟨layout.plan, options⟩ (bytes ++ more) = .ok value →
        need ≤ (bytes ++ more).length := by
  obtain ⟨after, failed⟩ := (decode_eq_error_iff (by simp)).mp failure
  have fails := failsLocally_readLayout options.encoding wellFormed
  obtain ⟨reported, short, enough⟩ := fails.truncates (by rwa [size_ofBytes]) failed
  rw [size_ofBytes] at reported short
  refine ⟨reported, short, fun more value success => ?_⟩
  obtain ⟨next, accepted, -⟩ := decode_eq_ok_iff.mp success
  rw [← extend_ofBytes] at accepted
  have least := enough more value next accepted
  rwa [extend_ofBytes, size_ofBytes] at least

theorem overflow_of_decode (bounded : bytes.length < 2 ^ 63) {declared : UInt64} {available : Nat}
    (failure : decode ⟨layout.plan, options⟩ bytes = .error (.lengthOverflow declared available)) :
    DeclaresTooMuch bytes declared available := by
  obtain ⟨after, failed⟩ := (decode_eq_error_iff (by simp)).mp failure
  exact (declared_readLayout options.encoding layout false).blames (by rwa [size_ofBytes]) failed

/-- No bytes that are added undo an error that is not about their lack. -/
theorem fatal_of_decode (wellFormed : layout.WellFormed) {e : DecodeError}
    (failure : decode ⟨layout.plan, options⟩ bytes = .error e) (fatal : e.IsFatal)
    (more : List UInt8) :
    decode ⟨layout.plan, options⟩ (bytes ++ more) = .error (e.withMore more.length) := by
  have untrailing : ∀ more remaining, e.withMore more ≠ .trailing remaining := by
    intro more remaining
    cases e with
    | trailing found => exact fatal.elim
    | _ => simp [DecodeError.withMore]
  have unchanged : ∀ remaining, e ≠ .trailing remaining := by
    rintro remaining rfl
    exact fatal
  obtain ⟨after, failed⟩ := (decode_eq_error_iff unchanged).mp failure
  obtain ⟨last, refused⟩ := (failsLocally_readLayout options.encoding wellFormed).refuses failed
    fatal.not_isTruncation more
  exact (decode_eq_error_iff (untrailing _)).mpr ⟨last, refused⟩

end

/-- What the error of a refused buffer says. The bound on the buffer is that of every slice of bytes
in memory. -/
theorem failure_of_decode {aliases : AliasTable} {definition : Definition} {plan : Plan}
    (compiled : definition.compile aliases = .ok plan) (options : Options) {bytes : List UInt8}
    (bounded : bytes.length < 2 ^ 63) :
    (∀ need size, decode ⟨plan, options⟩ bytes = .error (.truncated need size) →
      size = bytes.length ∧ bytes.length < need ∧
        ∀ more value, decode ⟨plan, options⟩ (bytes ++ more) = .ok value →
          need ≤ (bytes ++ more).length) ∧
    (∀ declared available,
      decode ⟨plan, options⟩ bytes = .error (.lengthOverflow declared available) →
        DeclaresTooMuch bytes declared available) ∧
    (∀ remaining, decode ⟨plan, options⟩ bytes = .error (.trailing remaining) →
      (∀ items, definition ≠ .sequence items) ∧ 1 ≤ remaining ∧ remaining ≤ bytes.length ∧
        ∃ value,
          decode ⟨plan, options⟩ (bytes.take (bytes.length - remaining)) = .ok value) ∧
    ∀ e, decode ⟨plan, options⟩ bytes = .error e → e.IsFatal →
      ∀ more, decode ⟨plan, options⟩ (bytes ++ more) = .error (e.withMore more.length) := by
  obtain ⟨layout, laidOut, rfl⟩ := Definition.compile_eq_ok_iff.mp compiled
  have wellFormed := Definition.layout_wellFormed laidOut
  refine ⟨fun need size failure => ?truncated, fun declared available failure => ?overflow,
    fun remaining failure => ?trailing, fun e failure fatal more => ?fatal⟩
  case truncated => exact truncation_of_decode wellFormed bounded failure
  case overflow => exact overflow_of_decode bounded failure
  case trailing => exact trailing_of_decode laidOut bounded failure
  case fatal => exact fatal_of_decode wellFormed failure fatal more

theorem failure_of_decode_tags :
    (decode ⟨Layout.plan (.mapping [("id", .leaf .uint8), ("tags", .sequence [] (.leaf .string))]),
        .utf8, false⟩ [7, 128, 128, 128, 128, 128, 128, 128, 128, 128, 1, 97] =
          .error (.lengthOverflow 0x8000000000000000 1) ∧
      DeclaresTooMuch [7, 128, 128, 128, 128, 128, 128, 128, 128, 128, 1, 97] 0x8000000000000000 1 ∧
      ∀ more : List UInt8, decode ⟨Layout.plan (.mapping
        [("id", .leaf .uint8), ("tags", .sequence [] (.leaf .string))]), .utf8, false⟩
          ([7, 128, 128, 128, 128, 128, 128, 128, 128, 128, 1, 97] ++ more) =
            .error (.lengthOverflow 0x8000000000000000 (1 + more.length))) ∧
    (decode ⟨Layout.plan (.mapping [("id", .leaf .uint8), ("tags", .sequence [] (.leaf .string))]),
        .utf8, false⟩ [7, 3, 1] = .error (.truncated 5 3) ∧
      ∀ more value, decode ⟨Layout.plan (.mapping
        [("id", .leaf .uint8), ("tags", .sequence [] (.leaf .string))]), .utf8, false⟩
          ([7, 3, 1] ++ more) = .ok value → 5 ≤ ([7, 3, 1] ++ more : List UInt8).length) := by
  have compiled : (Definition.mapping [("tags", .sequence [.type "string"]),
      ("id", .type "uint8")]).compile .initial = .ok (Layout.plan
        (.mapping [("id", .leaf .uint8), ("tags", .sequence [] (.leaf .string))])) := rfl
  have refused : decode ⟨Layout.plan (.mapping
      [("id", .leaf .uint8), ("tags", .sequence [] (.leaf .string))]), .utf8, false⟩
        [7, 128, 128, 128, 128, 128, 128, 128, 128, 128, 1, 97] =
          .error (.lengthOverflow 0x8000000000000000 1) := rfl
  have short : decode ⟨Layout.plan (.mapping
      [("id", .leaf .uint8), ("tags", .sequence [] (.leaf .string))]), .utf8, false⟩ [7, 3, 1] =
        .error (.truncated 5 3) := rfl
  obtain ⟨-, overflow, -, fatal⟩ := failure_of_decode compiled ⟨.utf8, false⟩
    (by decide :
      ([7, 128, 128, 128, 128, 128, 128, 128, 128, 128, 1, 97] : List UInt8).length < 2 ^ 63)
  obtain ⟨truncated, -⟩ := failure_of_decode compiled ⟨.utf8, false⟩
    (by decide : ([7, 3, 1] : List UInt8).length < 2 ^ 63)
  exact ⟨⟨refused, overflow _ _ refused, fatal _ refused trivial⟩, short,
    (truncated _ _ short).2.2⟩

end SchemaWire.Codec
