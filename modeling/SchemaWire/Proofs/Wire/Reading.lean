import SchemaWire.Proofs.Wire.BigEndian
import SchemaWire.Proofs.Wire.Varint
import SchemaWire.Wire.Reader

/-!
# What reads accept

For each read the bytes that it accepts and what it makes of them, as an equivalence: a read
succeeds exactly on buffers that begin with such bytes, and stops right behind them. Buffers are
shorter than 2^63 bytes where declared lengths matter.
-/

set_option autoImplicit false

namespace SchemaWire.Wire

open Floating (Binary32 Binary64)

/-- The way from one reader to another over the bytes between them. -/
structure Reader.Passes (reader : Reader) (taken : List UInt8) (next : Reader) : Prop where
  rest : reader.rest = taken ++ next.rest
  position : next.position = reader.position + taken.length

namespace Reader.Passes

variable {reader middle next : Reader} {first second taken : List UInt8}

theorem nil_iff : reader.Passes [] next ↔ next = reader := by
  constructor
  · rintro ⟨rest, position⟩
    cases next
    cases reader
    cases rest
    cases position
    rfl
  · rintro rfl
    exact ⟨rfl, rfl⟩

theorem append_iff :
    reader.Passes (first ++ second) next ↔
      ∃ middle, reader.Passes first middle ∧ middle.Passes second next := by
  constructor
  · intro passes
    exact ⟨⟨reader.position + first.length, second ++ next.rest⟩,
      ⟨by rw [passes.rest, List.append_assoc], rfl⟩,
      ⟨rfl, by rw [passes.position, List.length_append, Nat.add_assoc]⟩⟩
  · rintro ⟨middle, left, right⟩
    exact ⟨by rw [left.rest, right.rest, List.append_assoc],
      by rw [right.position, left.position, List.length_append, Nat.add_assoc]⟩

theorem trans (left : reader.Passes first middle) (right : middle.Passes second next) :
    reader.Passes (first ++ second) next :=
  append_iff.mpr ⟨middle, left, right⟩

theorem size_eq (passes : reader.Passes taken next) : next.size = reader.size := by
  have total : reader.remaining = taken.length + next.remaining := by
    simp [Reader.remaining, passes.rest]
  rw [Reader.size, Reader.size, passes.position, total, Nat.add_assoc]

theorem length_le (passes : reader.Passes taken next) :
    next.position + next.remaining = reader.size ∧ taken.length ≤ reader.remaining := by
  refine ⟨passes.size_eq, ?_⟩
  simp [Reader.remaining, passes.rest]

end Reader.Passes

theorem Reader.passes_take (reader : Reader) {count : Nat} (enough : count ≤ reader.remaining) :
    reader.Passes (reader.rest.take count) ⟨reader.position + count, reader.rest.drop count⟩ where
  rest := (List.take_append_drop count reader.rest).symm
  position := by rw [List.length_take_of_le enough]

/-! ## Sequences of reads -/

namespace Read

variable {α β : Type}

theorem bind_apply (read : Read α) (next : α → Read β) (reader : Reader) :
    (read >>= next) reader =
      match read reader with
      | .ok value after => next value after
      | .error e after => .error e after := by
  simp only [bind, EStateM.bind]
  cases read reader <;> rfl

theorem bind_eq_ok_iff {read : Read α} {next : α → Read β} {reader after : Reader} {value : β} :
    (read >>= next) reader = .ok value after ↔
      ∃ first middle, read reader = .ok first middle ∧ next first middle = .ok value after := by
  rw [bind_apply]
  cases read reader with
  | ok first middle =>
      constructor
      · intro success
        exact ⟨first, middle, rfl, success⟩
      · rintro ⟨_, _, same, success⟩
        cases same
        exact success
  | error e after => simp

theorem bind_eq_error_iff {read : Read α} {next : α → Read β} {reader after : Reader}
    {e : DecodeError} :
    (read >>= next) reader = .error e after ↔
      read reader = .error e after ∨
        ∃ first middle, read reader = .ok first middle ∧ next first middle = .error e after := by
  rw [bind_apply]
  cases read reader with
  | ok first middle =>
      constructor
      · intro failure
        exact .inr ⟨first, middle, rfl, failure⟩
      · rintro (impossible | ⟨_, _, same, failure⟩)
        · cases impossible
        · cases same
          exact failure
  | error other middle => simp

theorem pure_eq_ok_iff {value found : α} {reader next : Reader} :
    (pure value : Read α) reader = .ok found next ↔ found = value ∧ next = reader := by
  constructor
  · intro success
    cases success
    exact ⟨rfl, rfl⟩
  · rintro ⟨rfl, rfl⟩
    rfl

theorem bind_pure_eq_ok_iff {read : Read α} {result : α → β} {reader after : Reader} {value : β} :
    (read >>= fun found => pure (result found)) reader = .ok value after ↔
      ∃ found, read reader = .ok found after ∧ result found = value := by
  rw [bind_eq_ok_iff]
  constructor
  · rintro ⟨found, middle, success, same⟩
    obtain ⟨rfl, rfl⟩ := pure_eq_ok_iff.mp same
    exact ⟨found, success, rfl⟩
  · rintro ⟨found, success, rfl⟩
    exact ⟨found, after, success, rfl⟩

end Read

/-! ## Fixed numbers of bytes -/

theorem splitExact?_eq {α : Type} (count : Nat) (items : List α) :
    splitExact? count items =
      if count ≤ items.length then some (items.take count, items.drop count) else none := by
  induction count generalizing items with
  | zero => simp [splitExact?]
  | succ count ih =>
      cases items with
      | nil => simp [splitExact?]
      | cons item items =>
          simp only [splitExact?, ih, List.length_cons, Nat.add_le_add_iff_right]
          by_cases enough : count ≤ items.length <;> simp [enough]

namespace Read

variable {reader next : Reader}

theorem take_apply (count : Nat) (reader : Reader) :
    take count reader =
      if count ≤ reader.remaining then
        .ok (reader.rest.take count) ⟨reader.position + count, reader.rest.drop count⟩
      else .error (.truncated (min (reader.position + count) (2 ^ 64 - 1)) reader.size) reader := by
  unfold take
  rw [splitExact?_eq]
  by_cases enough : count ≤ reader.rest.length <;> simp [enough, Reader.remaining]

theorem take_eq_ok_iff {count : Nat} {bytes : List UInt8} :
    take count reader = .ok bytes next ↔ bytes.length = count ∧ reader.Passes bytes next := by
  rw [take_apply]
  constructor
  · intro success
    split at success
    · rename_i enough
      cases success
      exact ⟨List.length_take_of_le enough, reader.passes_take enough⟩
    · cases success
  · rintro ⟨rfl, passes⟩
    obtain ⟨position, rest⟩ := next
    obtain ⟨split, moved⟩ := passes
    simp only at split moved
    simp [Reader.remaining, split, moved]

theorem fixed_eq_ok_iff {width number : Nat} :
    fixed width reader = .ok number next ↔
      ∃ bytes, bytes.length = width ∧ ofBigEndian bytes = number ∧ reader.Passes bytes next := by
  rw [fixed, bind_pure_eq_ok_iff]
  constructor
  · rintro ⟨bytes, success, value⟩
    obtain ⟨length, passes⟩ := take_eq_ok_iff.mp success
    exact ⟨bytes, length, value, passes⟩
  · rintro ⟨bytes, length, value, passes⟩
    exact ⟨bytes, take_eq_ok_iff.mpr ⟨length, passes⟩, value⟩

theorem byte_eq_ok_iff {value : UInt8} :
    byte reader = .ok value next ↔ reader.Passes [value] next := by
  rw [byte, bind_pure_eq_ok_iff]
  constructor
  · rintro ⟨number, success, rfl⟩
    obtain ⟨bytes, length, rfl, passes⟩ := fixed_eq_ok_iff.mp success
    obtain ⟨single, rfl⟩ := List.length_eq_one_iff.mp length
    simpa [ofBigEndian] using passes
  · intro passes
    exact ⟨value.toNat, fixed_eq_ok_iff.mpr ⟨[value], rfl, by simp [ofBigEndian], passes⟩,
      UInt8.ofNat_toNat⟩

theorem binary32_eq_ok_iff {value : Binary32} :
    binary32 reader = .ok value next ↔
      reader.Passes (bigEndian 4 value.bits.toNat) next := by
  rw [binary32, bind_pure_eq_ok_iff]
  constructor
  · rintro ⟨number, success, rfl⟩
    obtain ⟨bytes, length, rfl, passes⟩ := fixed_eq_ok_iff.mp success
    have small := ofBigEndian_lt bytes
    have restored := bigEndian_ofBigEndian bytes
    rw [length] at small restored
    have bits : (UInt32.ofNat (ofBigEndian bytes)).toNat = ofBigEndian bytes :=
      UInt32.toNat_ofNat_of_lt' small
    rwa [bits, restored]
  · intro passes
    refine ⟨value.bits.toNat, fixed_eq_ok_iff.mpr ⟨_, length_bigEndian _ _, ?_, passes⟩, ?_⟩
    · rw [ofBigEndian_bigEndian]
      exact Nat.mod_eq_of_lt value.bits.toNat_lt
    · rw [UInt32.ofNat_toNat]

theorem binary64_eq_ok_iff {value : Binary64} :
    binary64 reader = .ok value next ↔
      reader.Passes (bigEndian 8 value.bits.toNat) next := by
  rw [binary64, bind_pure_eq_ok_iff]
  constructor
  · rintro ⟨number, success, rfl⟩
    obtain ⟨bytes, length, rfl, passes⟩ := fixed_eq_ok_iff.mp success
    have small := ofBigEndian_lt bytes
    have restored := bigEndian_ofBigEndian bytes
    rw [length] at small restored
    have bits : (UInt64.ofNat (ofBigEndian bytes)).toNat = ofBigEndian bytes :=
      UInt64.toNat_ofNat_of_lt' small
    rwa [bits, restored]
  · intro passes
    refine ⟨value.bits.toNat, fixed_eq_ok_iff.mpr ⟨_, length_bigEndian _ _, ?_, passes⟩, ?_⟩
    · rw [ofBigEndian_bigEndian]
      exact Nat.mod_eq_of_lt value.bits.toNat_lt
    · rw [UInt64.ofNat_toNat]

/-! ## Integers in groups -/

theorem varuintFrom_of_delimited (start : Nat) {more index : Nat} {value : UInt64}
    {groups : List UInt8} (delimited : Delimited groups) (short : groups.length ≤ more)
    (inside : index + more ≤ 10) (below : value.toNat < 2 ^ (7 * index))
    (passes : reader.Passes groups next) :
    varuintFrom start more index value reader =
      .ok (UInt64.ofNat (value.toNat + 2 ^ (7 * index) * groupsValue groups)) next := by
  induction groups generalizing more index value reader with
  | nil => exact delimited.elim
  | cons group rest ih =>
      obtain ⟨more, rfl⟩ : ∃ fewer, more = fewer + 1 := ⟨more - 1, by simp at short; omega⟩
      have split : reader.Passes ([group] ++ rest) next := passes
      obtain ⟨middle, first, others⟩ := Reader.Passes.append_iff.mp split
      have added := toNat_or_group group (by omega : index < 10) below
      have sum : 2 ^ (7 * index) * groupsValue (group :: rest) =
          2 ^ (7 * index) * (group.toNat % 128) + 2 ^ (7 * (index + 1)) * groupsValue rest := by
        rw [groupsValue, Nat.mul_add, ← Nat.mul_assoc, Nat.mul_add 7 index, Nat.pow_add]
      rw [varuintFrom, bind_apply, byte_eq_ok_iff.mpr first]
      simp only [Delimited] at delimited ⊢
      split
      · rename_i clear
        rw [if_pos clear] at delimited
        subst delimited
        rw [Reader.Passes.nil_iff.mp others]
        refine pure_eq_ok_iff.mpr ⟨?_, rfl⟩
        apply UInt64.toNat_inj.mp
        rw [UInt64.toNat_ofNat', sum, added]
        simp [groupsValue]
      · rename_i set
        rw [if_neg set] at delimited
        have room : index + 1 ≤ 9 := by
          have := delimited.length_pos
          simp only [List.length_cons] at short
          omega
        have low : group.toNat % 128 + 1 ≤ 128 := Nat.mod_lt _ (by decide)
        have grown : value.toNat + 2 ^ (7 * index) * (group.toNat % 128) <
            2 ^ (7 * (index + 1)) := by
          calc value.toNat + 2 ^ (7 * index) * (group.toNat % 128)
              < 2 ^ (7 * index) * (group.toNat % 128 + 1) := by rw [Nat.mul_succ]; omega
            _ ≤ 2 ^ (7 * index) * 128 := Nat.mul_le_mul_left _ low
            _ = 2 ^ (7 * (index + 1)) := by rw [Nat.mul_add 7 index, Nat.pow_add]
        have word : 2 ^ (7 * (index + 1)) ≤ 2 ^ 64 := Nat.pow_le_pow_right (by decide) (by omega)
        rw [Nat.mod_eq_of_lt (Nat.lt_of_lt_of_le grown word)] at added
        rw [ih delimited (by simpa using short) (by omega) (by rwa [added]) others, added, sum,
          Nat.add_assoc]

theorem varuintFrom_delimited {start more index : Nat} {value found : UInt64}
    (success : varuintFrom start more index value reader = .ok found next) :
    ∃ groups, Delimited groups ∧ groups.length ≤ more ∧ reader.Passes groups next := by
  induction more generalizing index value reader with
  | zero => cases success
  | succ more ih =>
      obtain ⟨group, middle, first, success⟩ := bind_eq_ok_iff.mp success
      have passes := byte_eq_ok_iff.mp first
      split at success
      · rename_i clear
        obtain ⟨-, rfl⟩ := pure_eq_ok_iff.mp success
        exact ⟨[group], by simp [Delimited, clear], by simp, passes⟩
      · rename_i set
        obtain ⟨groups, delimited, short, others⟩ := ih success
        exact ⟨group :: groups, by simpa [Delimited, set] using delimited, by simpa using short,
          passes.trans others⟩

theorem varuint_eq_ok_iff {value : UInt64} :
    varuint reader = .ok value next ↔
      ∃ groups, Denotes groups value ∧ reader.Passes groups next := by
  have start : varuint reader = varuintFrom reader.position maxVaruintLength 0 0 reader := rfl
  rw [start]
  constructor
  · intro success
    obtain ⟨groups, delimited, short, passes⟩ := varuintFrom_delimited success
    rw [varuintFrom_of_delimited _ delimited short (by decide) (by decide) passes] at success
    cases success
    exact ⟨groups, ⟨delimited, short, by simp⟩, passes⟩
  · rintro ⟨groups, denotes, passes⟩
    rw [varuintFrom_of_delimited _ denotes.delimited denotes.short (by decide) (by decide) passes,
      ← denotes.value_eq]
    simp

theorem varint_eq_ok_iff {value : Int64} :
    varint reader = .ok value next ↔
      ∃ groups, Denotes groups (zigzag value) ∧ reader.Passes groups next := by
  rw [varint, bind_pure_eq_ok_iff]
  constructor
  · rintro ⟨number, success, rfl⟩
    rw [zigzag_unzigzag]
    exact varuint_eq_ok_iff.mp success
  · intro groups
    exact ⟨zigzag value, varuint_eq_ok_iff.mpr groups, unzigzag_zigzag value⟩

theorem varuint_of_passes {value : UInt64} (passes : reader.Passes (varuintBytes value) next) :
    varuint reader = .ok value next :=
  varuint_eq_ok_iff.mpr ⟨_, varuintBytes_denotes value, passes⟩

theorem varint_of_passes {value : Int64} (passes : reader.Passes (varintBytes value) next) :
    varint reader = .ok value next :=
  varint_eq_ok_iff.mpr ⟨_, varuintBytes_denotes (zigzag value), passes⟩

/-! ## Declared lengths -/

theorem checkedLength_apply (declared : UInt64) (reader : Reader) :
    checkedLength declared reader =
      if declared.toNat < 2 ^ 63 ∧ reader.position + declared.toNat < 2 ^ 64 then
        .ok declared.toNat reader
      else .error (.lengthOverflow declared reader.remaining) reader := by
  have start : checkedLength declared reader =
      (if declared.toNat < 2 ^ 63 ∧ reader.position + declared.toNat < 2 ^ 64 then
        pure declared.toNat
      else throw (.lengthOverflow declared reader.remaining) : Read Nat) reader := rfl
  rw [start]
  split <;> rfl

theorem checkedLength_eq_ok_iff {declared : UInt64} {length : Nat} :
    checkedLength declared reader = .ok length next ↔
      declared.toNat < 2 ^ 63 ∧ reader.position + declared.toNat < 2 ^ 64 ∧
        length = declared.toNat ∧ next = reader := by
  rw [checkedLength_apply]
  split
  · rename_i fits
    constructor
    · intro success
      cases success
      exact ⟨fits.1, fits.2, rfl, rfl⟩
    · rintro ⟨-, -, rfl, rfl⟩
      rfl
  · rename_i unfit
    constructor
    · intro failure
      cases failure
    · rintro ⟨short, inside, -⟩
      exact (unfit ⟨short, inside⟩).elim

/-- Bytes after their number are found if some buffer can hold them, however long this one is. -/
theorem prefixed_of_passes {groups bytes : List UInt8}
    (denotes : Denotes groups (UInt64.ofNat bytes.length))
    (passes : reader.Passes (groups ++ bytes) next) (short : bytes.length < 2 ^ 63)
    (inside : next.position < 2 ^ 64) : prefixed reader = .ok bytes next := by
  obtain ⟨middle, first, others⟩ := Reader.Passes.append_iff.mp passes
  have end_eq := others.position
  have number : (UInt64.ofNat bytes.length).toNat = bytes.length := by
    rw [UInt64.toNat_ofNat']
    omega
  have checked : checkedLength (UInt64.ofNat bytes.length) middle = .ok bytes.length middle := by
    apply checkedLength_eq_ok_iff.mpr
    simp only [number, and_true]
    omega
  apply bind_eq_ok_iff.mpr
  refine ⟨_, middle, varuint_eq_ok_iff.mpr ⟨groups, denotes, first⟩, ?_⟩
  exact bind_eq_ok_iff.mpr ⟨_, middle, checked, take_eq_ok_iff.mpr ⟨rfl, others⟩⟩

theorem prefixed_eq_ok_iff (bounded : reader.size < 2 ^ 63) {bytes : List UInt8} :
    prefixed reader = .ok bytes next ↔
      ∃ groups, Denotes groups (UInt64.ofNat bytes.length) ∧
        reader.Passes (groups ++ bytes) next := by
  rw [prefixed, bind_eq_ok_iff]
  constructor
  · rintro ⟨declared, middle, first, success⟩
    obtain ⟨groups, denotes, passes⟩ := varuint_eq_ok_iff.mp first
    obtain ⟨length, checkedAt, checked, taken⟩ := bind_eq_ok_iff.mp success
    obtain ⟨-, -, rfl, rfl⟩ := checkedLength_eq_ok_iff.mp checked
    obtain ⟨counted, others⟩ := take_eq_ok_iff.mp taken
    refine ⟨groups, ?_, passes.trans others⟩
    rwa [counted, UInt64.ofNat_toNat]
  · intro ⟨groups, denotes, passes⟩
    have room := passes.length_le
    have size : reader.size = reader.position + reader.remaining := rfl
    have length : (groups ++ bytes).length = groups.length + bytes.length := List.length_append
    exact bind_eq_ok_iff.mp (prefixed_of_passes denotes passes (by omega) (by omega))

/-- The text found in bytes, or its refusal at the position where the text starts. -/
def readable (encoding : TextEncoding) (start : Nat) :
    Except UnreadableText String → Read String
  | .ok content => return content
  | .error reason => throw (.unreadableText start encoding reason)

theorem text_eq (encoding : TextEncoding) : text encoding = (do
    let reader ← get
    let bytes ← prefixed
    readable encoding reader.position (textOfPayload encoding bytes)) :=
  rfl

theorem readable_eq_ok_iff {encoding : TextEncoding} {start : Nat}
    {outcome : Except UnreadableText String} {content : String} :
    readable encoding start outcome reader = .ok content next ↔
      outcome = .ok content ∧ next = reader := by
  cases outcome with
  | ok found =>
      rw [readable, pure_eq_ok_iff, Except.ok.injEq, eq_comm]
  | error reason =>
      constructor
      · intro failure
        cases failure
      · intro ⟨failure, _⟩
        cases failure

theorem text_of_passes {encoding : TextEncoding} {groups bytes : List UInt8}
    (denotes : Denotes groups (UInt64.ofNat bytes.length))
    (passes : reader.Passes (groups ++ bytes) next) (short : bytes.length < 2 ^ 63)
    (inside : next.position < 2 ^ 64) :
    text encoding reader =
      readable encoding reader.position (textOfPayload encoding bytes) next := by
  have found := prefixed_of_passes denotes passes short inside
  change (prefixed >>= fun bytes =>
    readable encoding reader.position (textOfPayload encoding bytes)) reader = _
  rw [bind_apply, found]

theorem text_eq_ok_iff (bounded : reader.size < 2 ^ 63) {encoding : TextEncoding}
    {content : String} :
    text encoding reader = .ok content next ↔
      ∃ groups bytes, Denotes groups (UInt64.ofNat bytes.length) ∧
        textOfPayload encoding bytes = .ok content ∧ reader.Passes (groups ++ bytes) next := by
  have start : text encoding reader =
      (prefixed >>= fun bytes =>
        readable encoding reader.position (textOfPayload encoding bytes)) reader := rfl
  rw [start, bind_eq_ok_iff]
  constructor
  · intro ⟨bytes, middle, first, success⟩
    obtain ⟨groups, denotes, passes⟩ := (prefixed_eq_ok_iff bounded).mp first
    obtain ⟨found, rfl⟩ := readable_eq_ok_iff.mp success
    exact ⟨groups, bytes, denotes, found, passes⟩
  · intro ⟨groups, bytes, denotes, found, passes⟩
    exact ⟨bytes, next, (prefixed_eq_ok_iff bounded).mpr ⟨groups, denotes, passes⟩,
      readable_eq_ok_iff.mpr ⟨found, rfl⟩⟩

end Read

end SchemaWire.Wire
