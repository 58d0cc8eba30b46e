import SchemaWire.Proofs.Wire.Outcomes

/-!
# Failures

What the failure of a read says about the bytes. A truncation asks for no more bytes than every
accepted longer buffer has, every other failure is one of every longer buffer, and a length is
refused for being past every possible buffer only where the bytes declare such a length. The first
two hold of every local read. Reading to the end of the bytes is not local, since what it finds
grows with the buffer, but it fails as its elements do.
-/

set_option autoImplicit false

namespace SchemaWire.Wire

/-- An error that no further bytes can mend. -/
def DecodeError.IsFatal : DecodeError → Prop
  | .lengthOverflow _ _ | .varuintTooLong _ | .unbalanced | .unreadableText _ _ _ => True
  | .truncated _ _ | .trailing _ => False

theorem DecodeError.IsFatal.not_isTruncation {e : DecodeError} (fatal : e.IsFatal) :
    ¬ e.IsTruncation := by
  cases e with
  | truncated need size => exact fatal.elim
  | _ => exact id

/-- The bytes declare a length of 2^63 or more, and so many bytes stand behind it. -/
def DeclaresTooMuch (bytes : List UInt8) (declared : UInt64) (available : Nat) : Prop :=
  2 ^ 63 ≤ declared.toNat ∧ ∃ before groups rest, bytes = before ++ (groups ++ rest) ∧
    Denotes groups declared ∧ rest.length = available

theorem DeclaresTooMuch.append_left {bytes : List UInt8} {declared : UInt64} {available : Nat}
    (declares : DeclaresTooMuch bytes declared available) (taken : List UInt8) :
    DeclaresTooMuch (taken ++ bytes) declared available := by
  obtain ⟨large, before, groups, rest, rfl, denotes, length⟩ := declares
  exact ⟨large, taken ++ before, groups, rest, (List.append_assoc _ _ _).symm, denotes, length⟩

/-- The bytes are to blame where a length is refused for being past every possible buffer. -/
def DecodeError.Blames (bytes : List UInt8) : DecodeError → Prop
  | .lengthOverflow declared available => DeclaresTooMuch bytes declared available
  | .truncated _ _ | .varuintTooLong _ | .unbalanced | .unreadableText _ _ _ | .trailing _ => True

theorem DecodeError.Blames.append_left {bytes : List UInt8} {e : DecodeError}
    (blames : e.Blames bytes) (taken : List UInt8) : e.Blames (taken ++ bytes) := by
  cases e with
  | lengthOverflow declared available => exact DeclaresTooMuch.append_left blames taken
  | _ => trivial

namespace Read

variable {α β : Type}

theorem bind_pure_eq_error_iff {read : Read α} {result : α → β} {reader after : Reader}
    {e : DecodeError} :
    (read >>= fun found => pure (result found)) reader = .error e after ↔
      read reader = .error e after := by
  rw [bind_eq_error_iff]
  constructor
  · rintro (failure | ⟨found, middle, -, impossible⟩)
    · exact failure
    · cases impossible
  · exact .inl

/-! ## Refused lengths -/

/-- Every refused length is declared by the bytes and is past every possible buffer. -/
structure Declared (read : Read α) : Prop where
  blames {reader next : Reader} {e : DecodeError} :
    reader.size < 2 ^ 63 → read reader = .error e next → e.Blames reader.rest

namespace Declared

theorem pure (value : α) : Declared (Pure.pure value : Read α) where
  blames _ failure := by cases failure

theorem throw {e : DecodeError} (elsewhere : ∀ bytes, e.Blames bytes) :
    Declared (MonadExcept.throw e : Read α) where
  blames {reader _ _} _ failure := by
    cases failure
    exact elsewhere reader.rest

theorem bind {read : Read α} {next : α → Read β} (isLocal : Local read) (first : Declared read)
    (second : ∀ value, Declared (next value)) : Declared (read >>= next) where
  blames {reader _ e} bounded failure := by
    rcases bind_eq_error_iff.mp failure with left | ⟨value, middle, left, right⟩
    · exact first.blames bounded left
    · obtain ⟨taken, passes⟩ := isLocal.passes left
      rw [passes.rest]
      exact ((second value).blames (by rwa [passes.size_eq]) right).append_left taken

theorem map {read : Read α} (declared : Declared read) (result : α → β) :
    Declared (do let value ← read; return result value) where
  blames bounded failure := declared.blames bounded (bind_pure_eq_error_iff.mp failure)

theorem get {read : Reader → Read α} (each : ∀ reader, Declared (read reader)) :
    Declared (do let reader ← MonadState.get; read reader) where
  blames {reader _ _} bounded failure := (each reader).blames bounded failure

theorem take (count : Nat) : Declared (Read.take count) where
  blames _ failure := by
    rw [take_apply] at failure
    split at failure <;> cases failure
    trivial

theorem fixed (width : Nat) : Declared (Read.fixed width) :=
  (take width).map _

theorem byte : Declared Read.byte :=
  (fixed 1).map _

theorem varuintFrom (start more index : Nat) (value : UInt64) :
    Declared (Read.varuintFrom start more index value) := by
  induction more generalizing index value with
  | zero => exact throw fun bytes => trivial
  | succ more ih =>
      refine bind .byte byte fun group => ?_
      dsimp only
      split
      · exact pure _
      · exact ih _ _

theorem varuint : Declared Read.varuint :=
  get fun reader => varuintFrom reader.position _ _ _

/-- A declared length, and then what is made of it where a buffer could have so many bytes. -/
theorem length {next : Nat → Read β} (after : ∀ length, Declared (next length)) :
    Declared (do
      let declared ← Read.varuint
      let length ← Read.checkedLength declared
      next length) where
  blames {reader _ e} bounded failure := by
    rcases bind_eq_error_iff.mp failure with left | ⟨declared, middle, left, right⟩
    · exact varuint.blames bounded left
    · obtain ⟨groups, denotes, passes⟩ := varuint_eq_ok_iff.mp left
      have whole : middle.size = middle.position + middle.remaining := rfl
      have size := passes.size_eq
      rcases bind_eq_error_iff.mp right with refused | ⟨length, same, accepted, later⟩
      · rw [checkedLength_apply] at refused
        split at refused
        · cases refused
        · rename_i unfit
          cases refused
          -- Inside a buffer a length below 2^63 cannot take the position past 2^64.
          exact ⟨by omega, [], groups, _, passes.rest, denotes, rfl⟩
      · obtain ⟨-, -, -, rfl⟩ := checkedLength_eq_ok_iff.mp accepted
        rw [passes.rest]
        exact ((after length).blames (by rwa [size]) later).append_left groups

theorem prefixed : Declared Read.prefixed :=
  length take

theorem text (encoding : TextEncoding) : Declared (Read.text encoding) := by
  rw [text_eq]
  refine get fun reader => bind .prefixed prefixed fun bytes => ?_
  cases textOfPayload encoding bytes with
  | ok content => exact pure _
  | error reason => exact throw fun bytes => trivial

theorem times {read : Read α} (isLocal : Local read) (element : Declared read) (count : Nat) :
    Declared (Read.times read count) := by
  induction count with
  | zero => exact pure _
  | succ count ih => exact bind isLocal element fun _ => ih.map _

theorem toEnd {read : Read α} (isLocal : Local read) (element : Declared read) :
    Declared (Read.toEnd read) := by
  have bounded : ∀ limit, Declared (Read.untilExhausted read limit) := by
    intro limit
    induction limit with
    | zero => exact pure _
    | succ limit ih =>
        refine get fun reader => ?_
        split
        · exact pure _
        · exact bind isLocal element fun _ => ih.map _
  exact get fun reader => bounded reader.remaining

end Declared

/-! ## To the end of the bytes -/

namespace FailsLocally

theorem map {read : Read α} (fails : FailsLocally read) (result : α → β) :
    FailsLocally (do let value ← read; return result value) where
  truncates bounded failure := by
    obtain ⟨size, short, enough⟩ := fails.truncates bounded (bind_pure_eq_error_iff.mp failure)
    refine ⟨size, short, fun more found after success => ?_⟩
    obtain ⟨value, longer, -⟩ := bind_pure_eq_ok_iff.mp success
    exact enough more value after longer
  refuses failure final more := by
    obtain ⟨after, longer⟩ := fails.refuses (bind_pure_eq_error_iff.mp failure) final more
    exact ⟨after, bind_pure_eq_error_iff.mpr longer⟩

variable {read : Read α}

theorem toEnd_of_some (advances : Advances read) {reader : Reader}
    (some : reader.isExhausted = false) :
    Read.toEnd read reader =
      (read >>= fun first => Read.toEnd read >>= fun others => pure (first :: others)) reader := by
  have looked := congrFun (toEnd_eq advances) reader
  rw [looked]
  change (if reader.isExhausted then pure [] else read >>= fun first =>
    Read.toEnd read >>= fun others => pure (first :: others) : Read (List α)) reader = _
  rw [some, if_neg Bool.false_ne_true]

/-- Reading to the end fails at an element, behind other elements or not. -/
theorem toEnd_eq_error_iff (advances : Advances read) {reader after : Reader} {e : DecodeError} :
    Read.toEnd read reader = .error e after ↔ reader.isExhausted = false ∧
      (read reader = .error e after ∨ ∃ item middle, read reader = .ok item middle ∧
        Read.toEnd read middle = .error e after) := by
  cases found : reader.isExhausted with
  | true =>
      have empty : Read.toEnd read reader = .ok [] reader :=
        untilExhausted_of_exhausted read _ found
      simp [empty]
  | false =>
      rw [toEnd_of_some advances found, bind_eq_error_iff]
      simp only [bind_pure_eq_error_iff, true_and]

/-- Where bytes are left, reading to the end succeeds with an element and then to the end. -/
theorem exists_first_of_toEnd (advances : Advances read) {reader after : Reader} {items : List α}
    (some : reader.isExhausted = false) (success : Read.toEnd read reader = .ok items after) :
    ∃ item middle others, read reader = .ok item middle ∧
      Read.toEnd read middle = .ok others after := by
  rw [toEnd_of_some advances some] at success
  obtain ⟨item, middle, first, success⟩ := bind_eq_ok_iff.mp success
  obtain ⟨others, rest, -⟩ := bind_pure_eq_ok_iff.mp success
  exact ⟨item, middle, others, first, rest⟩

theorem isExhausted_extend {reader : Reader} (some : reader.isExhausted = false)
    (more : List UInt8) : (reader.extend more).isExhausted = false := by
  simp only [Reader.isExhausted, Reader.extend, List.isEmpty_eq_false_iff] at some ⊢
  exact List.append_ne_nil_of_left_ne_nil some more

/-- The elements before the one at which reading to the end fails are read on longer buffers too,
and then the failure is that of the element. -/
theorem toEnd (isLocal : Local read) (advances : Advances read) : FailsLocally (Read.toEnd read) where
  truncates {reader next need size} bounded failure := by
    induction bytes : reader.remaining using Nat.strongRecOn generalizing reader with
    | ind bytes ih =>
        obtain ⟨some, failed⟩ := (toEnd_eq_error_iff advances).mp failure
        rcases failed with failed | ⟨item, middle, first, failed⟩
        · obtain ⟨reported, short, enough⟩ := isLocal.truncates bounded failed
          refine ⟨reported, short, fun more items after success => ?_⟩
          obtain ⟨found, between, -, longer, -⟩ :=
            exists_first_of_toEnd advances (isExhausted_extend some more) success
          exact enough more found between longer
        · obtain ⟨taken, passes⟩ := isLocal.passes first
          have fewer := advances.fewer first
          obtain ⟨reported, short, enough⟩ :=
            ih middle.remaining (bytes ▸ fewer) (by rwa [passes.size_eq]) failed rfl
          rw [passes.size_eq] at reported short
          refine ⟨reported, short, fun more items after success => ?_⟩
          obtain ⟨found, between, others, longer, rest⟩ :=
            exists_first_of_toEnd advances (isExhausted_extend some more) success
          cases (isLocal.succeeds first more).symm.trans longer
          have least := enough more others after rest
          rwa [(passes.extend more).size_eq] at least
  refuses {reader next e} failure final more := by
    induction bytes : reader.remaining using Nat.strongRecOn generalizing reader with
    | ind bytes ih =>
        obtain ⟨some, failed⟩ := (toEnd_eq_error_iff advances).mp failure
        have unfinished := isExhausted_extend some more
        rcases failed with failed | ⟨item, middle, first, failed⟩
        · obtain ⟨after, longer⟩ := isLocal.refuses failed final more
          exact ⟨after, (toEnd_eq_error_iff advances).mpr ⟨unfinished, .inl longer⟩⟩
        · have fewer := advances.fewer first
          obtain ⟨after, longer⟩ := ih middle.remaining (bytes ▸ fewer) failed rfl
          exact ⟨after, (toEnd_eq_error_iff advances).mpr
            ⟨unfinished, .inr ⟨item, _, isLocal.succeeds first more, longer⟩⟩⟩

end FailsLocally

end Read

end SchemaWire.Wire
