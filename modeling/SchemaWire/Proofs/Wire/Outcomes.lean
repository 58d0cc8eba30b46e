import SchemaWire.Proofs.Wire.Hex
import SchemaWire.Proofs.Wire.Locality

/-!
# Outcomes of reads

What the values have in common that a read finds, and that its errors are about the bytes. Reads
in several parts are taken apart, so that what is known of the parts gives what is known of the
whole. A read that takes a byte whenever it succeeds can be repeated to the end of the bytes.
-/

set_option autoImplicit false

namespace SchemaWire.Wire

/-- An error that some bytes are to blame for that a value is read from. -/
def DecodeError.InBytes : DecodeError → Prop
  | .truncated _ _ | .lengthOverflow _ _ | .varuintTooLong _ | .unreadableText _ _ _ => True
  | .unbalanced | .trailing _ => False

namespace Read

variable {α β : Type}

/-- Every value that is found has a property, and every error is in the bytes. -/
structure Ensures (read : Read α) (found : α → Prop) : Prop where
  ok {reader next : Reader} {value : α} : read reader = .ok value next → found value
  error {reader next : Reader} {e : DecodeError} : read reader = .error e next → e.InBytes

namespace Ensures

theorem pure {value : α} {found : α → Prop} (holds : found value) :
    Ensures (Pure.pure value) found where
  ok success := by
    obtain ⟨rfl, -⟩ := pure_eq_ok_iff.mp success
    exact holds
  error failure := by cases failure

theorem throw {e : DecodeError} (inBytes : e.InBytes) (found : α → Prop) :
    Ensures (MonadExcept.throw e) found where
  ok success := by cases success
  error failure := by
    cases failure
    exact inBytes

theorem bind {read : Read α} {next : α → Read β} {found : α → Prop} {result : β → Prop}
    (first : Ensures read found) (second : ∀ value, found value → Ensures (next value) result) :
    Ensures (read >>= next) result where
  ok success := by
    obtain ⟨value, middle, left, right⟩ := bind_eq_ok_iff.mp success
    exact (second value (first.ok left)).ok right
  error failure := by
    rcases bind_eq_error_iff.mp failure with left | ⟨value, middle, left, right⟩
    · exact first.error left
    · exact (second value (first.ok left)).error right

theorem map {read : Read α} {found : α → Prop} {result : β → Prop} {value : α → β}
    (first : Ensures read found) (each : ∀ item, found item → result (value item)) :
    Ensures (do let item ← read; return value item) result :=
  first.bind fun item holds => .pure (each item holds)

theorem get {read : Reader → Read α} {found : α → Prop}
    (each : ∀ reader, Ensures (read reader) found) :
    Ensures (do let reader ← MonadState.get; read reader) found where
  ok {reader _ _} success := (each reader).ok success
  error {reader _ _} failure := (each reader).error failure

/-! ## Data -/

theorem take (count : Nat) : Ensures (Read.take count) fun bytes => bytes.length = count where
  ok success := (take_eq_ok_iff.mp success).1
  error failure := by
    rw [take_apply] at failure
    split at failure
    · cases failure
    · cases failure
      exact trivial

theorem fixed (width : Nat) : Ensures (Read.fixed width) fun number => number < 256 ^ width :=
  (take width).map fun bytes length => length ▸ ofBigEndian_lt bytes

theorem byte : Ensures Read.byte fun _ => True :=
  (fixed 1).map fun _ _ => trivial

theorem binary32 : Ensures Read.binary32 fun _ => True :=
  (fixed 4).map fun _ _ => trivial

theorem binary64 : Ensures Read.binary64 fun _ => True :=
  (fixed 8).map fun _ _ => trivial

theorem varuintFrom (start more index : Nat) (value : UInt64) :
    Ensures (Read.varuintFrom start more index value) fun _ => True := by
  induction more generalizing index value with
  | zero =>
      refine throw ?_ _
      exact trivial
  | succ more ih =>
      refine byte.bind fun group _ => ?_
      dsimp only
      split
      · exact pure trivial
      · exact ih _ _

theorem varuint : Ensures Read.varuint fun _ => True :=
  get fun reader => varuintFrom reader.position _ _ _

theorem varint : Ensures Read.varint fun _ => True :=
  varuint.map fun _ _ => trivial

theorem checkedLength (declared : UInt64) : Ensures (Read.checkedLength declared) fun _ => True where
  ok _ := trivial
  error failure := by
    rw [checkedLength_apply] at failure
    split at failure
    · cases failure
    · cases failure
      exact trivial

theorem prefixed : Ensures Read.prefixed fun _ => True :=
  varuint.bind fun declared _ => (checkedLength declared).bind fun length _ =>
    ⟨fun _ => trivial, (take length).error⟩

theorem text (encoding : TextEncoding) :
    Ensures (Read.text encoding) fun text : String =>
      encoding = .hex → ∀ c ∈ text.toList, c.isUpper = false := by
  rw [text_eq]
  refine get fun reader => prefixed.bind fun bytes _ => ?_
  cases outcome : textOfPayload encoding bytes with
  | error reason =>
      refine throw ?_ _
      exact trivial
  | ok content =>
      refine pure ?_
      rintro rfl c member
      cases outcome
      rw [String.toList_ofList] at member
      exact Hex.isUpper_of_mem_encode member

/-! ## Repetition -/

theorem cons {read : Read α} {rest : Read (List α)} {found : α → Prop}
    (element : Ensures read found) (others : Ensures rest fun items => ∀ item ∈ items, found item) :
    Ensures (do let first ← read; let others ← rest; return first :: others)
      fun items => ∀ item ∈ items, found item :=
  element.bind fun _ holds => others.map fun _ each => List.forall_mem_cons.mpr ⟨holds, each⟩

theorem times {read : Read α} {found : α → Prop} (element : Ensures read found) (count : Nat) :
    Ensures (Read.times read count) fun items => ∀ item ∈ items, found item := by
  induction count with
  | zero => exact pure fun _ => List.forall_mem_nil _ _
  | succ count ih => exact element.cons ih

theorem untilExhausted {read : Read α} {found : α → Prop} (element : Ensures read found)
    (limit : Nat) :
    Ensures (Read.untilExhausted read limit) fun items => ∀ item ∈ items, found item := by
  induction limit with
  | zero => exact pure fun _ => List.forall_mem_nil _ _
  | succ limit ih =>
      refine get fun reader => ?_
      split
      · exact pure fun _ => List.forall_mem_nil _ _
      · exact element.cons ih

theorem toEnd {read : Read α} {found : α → Prop} (element : Ensures read found) :
    Ensures (Read.toEnd read) fun items => ∀ item ∈ items, found item :=
  get fun reader => element.untilExhausted reader.remaining

end Ensures

/-! ## Reads that take a byte -/

/-- Every success takes a byte at least. -/
structure Advances (read : Read α) : Prop where
  fewer {reader next : Reader} {value : α} :
    read reader = .ok value next → next.remaining < reader.remaining

theorem Local.remaining_le {read : Read α} (isLocal : Local read) {reader next : Reader} {value : α}
    (success : read reader = .ok value next) : next.remaining ≤ reader.remaining := by
  obtain ⟨taken, passes⟩ := isLocal.passes success
  simp [Reader.remaining, passes.rest]

namespace Advances

theorem bind {read : Read α} {next : α → Read β} (first : Advances read)
    (second : ∀ value, Local (next value)) : Advances (read >>= next) where
  fewer success := by
    obtain ⟨found, middle, left, right⟩ := bind_eq_ok_iff.mp success
    exact Nat.lt_of_le_of_lt ((second found).remaining_le right) (first.fewer left)

theorem after {read : Read α} {next : α → Read β} (first : Local read)
    (second : ∀ value, Advances (next value)) : Advances (read >>= next) where
  fewer success := by
    obtain ⟨found, middle, left, right⟩ := bind_eq_ok_iff.mp success
    exact Nat.lt_of_lt_of_le ((second found).fewer right) (first.remaining_le left)

theorem map {read : Read α} (first : Advances read) (result : α → β) :
    Advances (do let value ← read; return result value) :=
  first.bind fun _ => .pure _

theorem take {count : Nat} (positive : 0 < count) : Advances (Read.take count) where
  fewer success := by
    obtain ⟨rfl, passes⟩ := take_eq_ok_iff.mp success
    simpa [Reader.remaining, passes.rest] using positive

theorem fixed {width : Nat} (positive : 0 < width) : Advances (Read.fixed width) :=
  (take positive).map _

theorem varuint : Advances Read.varuint where
  fewer success := by
    obtain ⟨groups, denotes, passes⟩ := varuint_eq_ok_iff.mp success
    simpa [Reader.remaining, passes.rest] using denotes.length_pos

theorem prefixed : Advances Read.prefixed :=
  varuint.bind fun declared => (Local.checkedLength declared).bind fun length => Local.take length

theorem text (encoding : TextEncoding) : Advances (Read.text encoding) where
  fewer {reader _ _} success :=
    (prefixed.bind fun bytes =>
      Local.readable encoding reader.position (textOfPayload encoding bytes)).fewer success

end Advances

/-! ## To the end of the bytes -/

theorem untilExhausted_succ (read : Read α) (limit : Nat) (reader : Reader) :
    untilExhausted read (limit + 1) reader =
      if reader.isExhausted then .ok [] reader
      else (do
        let first ← read
        let others ← untilExhausted read limit
        return first :: others) reader := by
  have unfolded : untilExhausted read (limit + 1) reader =
      (if reader.isExhausted then pure [] else do
        let first ← read
        let others ← untilExhausted read limit
        return first :: others : Read (List α)) reader := rfl
  rw [unfolded]
  split <;> rfl

theorem untilExhausted_of_exhausted (read : Read α) (limit : Nat) {reader : Reader}
    (exhausted : reader.isExhausted = true) :
    untilExhausted read limit reader = .ok [] reader := by
  cases limit with
  | zero => rfl
  | succ limit => rw [untilExhausted_succ, if_pos exhausted]

theorem isExhausted_iff {reader : Reader} : reader.isExhausted = true ↔ reader.remaining = 0 := by
  rw [Reader.isExhausted, Reader.remaining, List.isEmpty_iff, List.length_eq_zero_iff]

variable {read : Read α}

/-- Limits do not matter that are no less than the number of bytes. -/
theorem untilExhausted_eq (advances : Advances read) {limit : Nat} :
    ∀ {reader : Reader}, reader.remaining ≤ limit →
      untilExhausted read limit reader = toEnd read reader := by
  suffices same : ∀ {other : Nat} {reader : Reader}, reader.remaining ≤ limit →
      reader.remaining ≤ other →
        untilExhausted read limit reader = untilExhausted read other reader by
    intro reader enough
    exact same enough (Nat.le_refl _)
  induction limit with
  | zero =>
      intro other reader enough _
      have exhausted := isExhausted_iff.mpr (Nat.le_zero.mp enough)
      rw [untilExhausted_of_exhausted read _ exhausted, untilExhausted_of_exhausted read _ exhausted]
  | succ limit ih =>
      intro other reader enough otherEnough
      by_cases exhausted : reader.isExhausted
      · rw [untilExhausted_of_exhausted read _ exhausted,
          untilExhausted_of_exhausted read _ exhausted]
      · have some : reader.remaining ≠ 0 := fun none => exhausted (isExhausted_iff.mpr none)
        obtain ⟨other, rfl⟩ := Nat.exists_eq_succ_of_ne_zero (by omega : other ≠ 0)
        rw [untilExhausted_succ, untilExhausted_succ, if_neg exhausted, if_neg exhausted, bind_apply,
          bind_apply]
        cases outcome : read reader with
        | error e next => rfl
        | ok first next =>
            -- The element took a byte, so what is left fits into what is left of either limit.
            have fewer := advances.fewer outcome
            have rest := @ih other next (by omega) (by omega)
            dsimp only
            rw [bind_apply, bind_apply, rest]

/-- Reading to the end goes on until the bytes are exhausted. -/
theorem toEnd_eq (advances : Advances read) : toEnd read = (do
    let reader ← get
    if reader.isExhausted then return []
    else do
      let first ← read
      let others ← toEnd read
      return first :: others) := by
  funext reader
  have unfolded : (do
      let reader ← get
      if reader.isExhausted then return []
      else do
        let first ← read
        let others ← toEnd read
        return first :: others : Read (List α)) reader =
      (if reader.isExhausted then pure [] else do
        let first ← read
        let others ← toEnd read
        return first :: others : Read (List α)) reader := rfl
  rw [unfolded]
  split
  · rename_i exhausted
    exact untilExhausted_of_exhausted read _ exhausted
  · rename_i unexhausted
    have some : reader.remaining ≠ 0 := fun none => unexhausted (isExhausted_iff.mpr none)
    obtain ⟨fewer, count⟩ := Nat.exists_eq_succ_of_ne_zero some
    have whole : toEnd read reader = untilExhausted read (fewer + 1) reader := by
      rw [← Nat.succ_eq_add_one, ← count]
      rfl
    rw [whole, untilExhausted_succ, if_neg unexhausted, bind_apply, bind_apply]
    cases outcome : read reader with
    | error e next => rfl
    | ok first next =>
        have taken := advances.fewer outcome
        dsimp only
        rw [bind_apply, bind_apply, untilExhausted_eq advances (by omega)]

theorem exhausted_of_toEnd (advances : Advances read) {reader next : Reader} {items : List α}
    (success : toEnd read reader = .ok items next) : next.isExhausted = true := by
  have bounded : ∀ {limit : Nat} {reader : Reader} {items : List α}, reader.remaining ≤ limit →
      untilExhausted read limit reader = .ok items next → next.isExhausted = true := by
    intro limit
    induction limit with
    | zero =>
        intro reader items enough success
        cases success
        exact isExhausted_iff.mpr (Nat.le_zero.mp enough)
    | succ limit ih =>
        intro reader items enough success
        rw [untilExhausted_succ] at success
        split at success
        · rename_i exhausted
          cases success
          exact exhausted
        · obtain ⟨first, middle, left, success⟩ := bind_eq_ok_iff.mp success
          obtain ⟨others, right, -⟩ := bind_pure_eq_ok_iff.mp success
          have taken := advances.fewer left
          exact ih (by omega) right
  exact bounded (Nat.le_refl _) success

end Read

end SchemaWire.Wire
