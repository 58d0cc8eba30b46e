import Mathlib.Algebra.BigOperators.Ring.Finset
import SchemaWire.Proofs.Wire.Reading

/-!
# Groups in arbitrary bytes

What reading an integer in groups makes of any bytes. The first of ten bytes whose high bit is
clear ends the integer, which is the sum of the groups up to there as far as 64 bits go. Without
such a byte the read has passed over all bytes that are left or over ten of them. Groups that add
nothing do not change an integer, no group is shifted by 64 bits or more, and of a tenth group only
the lowest bit has a place.
-/

set_option autoImplicit false

namespace SchemaWire.Wire

open Finset (range)

/-- A longer form of an integer: its last group is continued by groups that add nothing, of which
`more` are continued themselves. -/
def overlong (groups : List UInt8) (more : Nat) : List UInt8 :=
  groups.map (· ||| 0x80) ++ (List.replicate more 0x80 ++ [0])

/-- `Read.varuintFrom` with another operation in place of the shift, one that may fail. -/
def varuintFromBy (shift : UInt64 → Nat → Read UInt64) (start : Nat) :
    Nat → Nat → UInt64 → Read UInt64
  | 0, _, _ => throw (.varuintTooLong start)
  | more + 1, index, value => do
    let group ← Read.byte
    let placed ← shift (group &&& 0x7f).toUInt64 (7 * index)
    let value := value ||| placed
    if group &&& 0x80 = 0 then return value
    else varuintFromBy shift start more (index + 1) value

/-- `Read.varuint` with another operation in place of the shift. -/
def varuintBy (shift : UInt64 → Nat → Read UInt64) : Read UInt64 := do
  let reader ← get
  varuintFromBy shift reader.position maxVaruintLength 0 0

/-! ## Where an integer ends -/

theorem delimited_take {bytes : List UInt8} {last : Nat} (inside : last < bytes.length)
    (continued : ∀ i < last, bytes.getD i 0 &&& 0x80 ≠ 0) (ends : bytes.getD last 0 &&& 0x80 = 0) :
    Delimited (bytes.take (last + 1)) := by
  induction last generalizing bytes with
  | zero =>
      cases bytes with
      | nil => cases inside
      | cons group rest => simpa [Delimited] using ends
  | succ last ih =>
      cases bytes with
      | nil => cases inside
      | cons group rest =>
          have set : ¬ group &&& 0x80 = 0 := continued 0 (Nat.succ_pos last)
          have later : ∀ i < last, rest.getD i 0 &&& 0x80 ≠ 0 := fun i earlier =>
            continued (i + 1) (Nat.succ_lt_succ earlier)
          rw [List.take_succ_cons, Delimited, if_neg set]
          exact ih (Nat.lt_of_succ_lt_succ inside) later ends

/-- Past the end of the bytes nothing is added. -/
theorem groupsValue_take (bytes : List UInt8) (count : Nat) :
    groupsValue (bytes.take count) =
      ∑ i ∈ range count, (bytes.getD i 0).toNat % 128 * 128 ^ i := by
  induction count generalizing bytes with
  | zero => simp [groupsValue]
  | succ count ih =>
      cases bytes with
      | nil => simp [groupsValue]
      | cons group rest =>
          rw [List.take_succ_cons, groupsValue, ih, Finset.sum_range_succ', Finset.mul_sum]
          simp [Nat.pow_succ, Nat.mul_comm, Nat.mul_assoc, Nat.add_comm]

theorem sum_groups_lt (bytes : List UInt8) {count : Nat} (few : count ≤ 9) :
    ∑ i ∈ range count, (bytes.getD i 0).toNat % 128 * 128 ^ i < 2 ^ 63 := by
  have length : (bytes.take count).length ≤ 9 := by
    rw [List.length_take]
    omega
  rw [← groupsValue_take]
  calc groupsValue (bytes.take count)
      < 2 ^ (7 * (bytes.take count).length) := groupsValue_lt _
    _ ≤ 2 ^ 63 := Nat.pow_le_pow_right (by decide) (by omega)

/-- Of a tenth group only the lowest bit has a place among 64. -/
theorem sum_groups_mod (bytes : List UInt8) {last : Nat} (short : last < 10) :
    (∑ i ∈ range (last + 1), (bytes.getD i 0).toNat % 128 * 128 ^ i) % 2 ^ 64 =
      ∑ i ∈ range (last + 1), (bytes.getD i 0).toNat % (if i = 9 then 2 else 128) * 128 ^ i := by
  have early : ∀ count ≤ 9,
      ∑ i ∈ range count, (bytes.getD i 0).toNat % (if i = 9 then 2 else 128) * 128 ^ i =
        ∑ i ∈ range count, (bytes.getD i 0).toNat % 128 * 128 ^ i := by
    intro count few
    apply Finset.sum_congr rfl
    intro i member
    have before := Finset.mem_range.mp member
    rw [if_neg (by omega)]
  by_cases tenth : last = 9
  · have nine := sum_groups_lt bytes (Nat.le_refl 9)
    rw [tenth, Finset.sum_range_succ _ 9, Finset.sum_range_succ _ 9, early 9 (Nat.le_refl 9),
      if_pos rfl]
    generalize ∑ i ∈ range 9, (bytes.getD i 0).toNat % 128 * 128 ^ i = sum at nine ⊢
    omega
  · have few : last + 1 ≤ 9 := by omega
    have below := sum_groups_lt bytes few
    rw [early _ few]
    exact Nat.mod_eq_of_lt (by omega)

/-! ## Longer forms -/

theorem delimited_append {left right : List UInt8}
    (continued : ∀ group ∈ left, group &&& 0x80 ≠ 0) :
    Delimited (left ++ right) ↔ Delimited right := by
  induction left with
  | nil => rfl
  | cons group left ih =>
      obtain ⟨set, others⟩ := List.forall_mem_cons.mp continued
      rw [List.cons_append, Delimited, if_neg set, ih others]

theorem groupsValue_continued (groups : List UInt8) :
    groupsValue (groups.map (· ||| 0x80)) = groupsValue groups := by
  induction groups with
  | nil => rfl
  | cons group rest ih => simp only [List.map_cons, groupsValue, ih, (continue_group group).2]

theorem groupsValue_zeros (more : Nat) : groupsValue (List.replicate more 0x80 ++ [0]) = 0 := by
  induction more with
  | zero => rfl
  | succ more ih => simp [List.replicate_succ, groupsValue, ih]

theorem length_overlong (groups : List UInt8) (more : Nat) :
    (overlong groups more).length = groups.length + more + 1 := by
  simp [overlong, Nat.add_assoc]

theorem denotes_overlong {groups : List UInt8} {value : UInt64} (denotes : Denotes groups value)
    {more : Nat} (room : groups.length + more < 10) : Denotes (overlong groups more) value where
  delimited := by
    rw [overlong, delimited_append, delimited_append]
    · simp [Delimited]
    · intro group member
      rw [List.eq_of_mem_replicate member]
      decide
    · intro group member
      obtain ⟨before, -, rfl⟩ := List.mem_map.mp member
      exact (continue_group before).1
  short := by
    rw [length_overlong, maxVaruintLength]
    omega
  value_eq := by
    rw [overlong, groupsValue_append, groupsValue_continued, groupsValue_zeros, Nat.mul_zero,
      Nat.add_zero, denotes.value_eq]

/-! ## Bytes that do not end an integer -/

section Continued

variable {reader middle : Reader} {groups : List UInt8}

/-- The read goes on behind groups whose high bits are set. -/
theorem Read.varuintFrom_of_continued (start : Nat)
    (continued : ∀ group ∈ groups, group &&& 0x80 ≠ 0) (passes : reader.Passes groups middle)
    (more index : Nat) (value : UInt64) :
    ∃ sum, varuintFrom start (groups.length + more) index value reader =
      varuintFrom start more (index + groups.length) sum middle := by
  induction groups generalizing reader index value with
  | nil =>
      have same := Reader.Passes.nil_iff.mp passes
      exact ⟨value, by simp [same]⟩
  | cons group rest ih =>
      have split : reader.Passes ([group] ++ rest) middle := passes
      obtain ⟨between, first, others⟩ := Reader.Passes.append_iff.mp split
      have set : ¬ group &&& 0x80 = 0 := continued group List.mem_cons_self
      have later : ∀ other ∈ rest, other &&& 0x80 ≠ 0 := fun other member =>
        continued other (List.mem_cons_of_mem _ member)
      have count : (group :: rest).length + more = rest.length + more + 1 := by
        rw [List.length_cons]
        omega
      have place : index + (group :: rest).length = index + 1 + rest.length := by
        rw [List.length_cons]
        omega
      rw [count, place, varuintFrom, bind_apply, byte_eq_ok_iff.mpr first]
      simp only [set, ↓reduceIte]
      exact ih later others _ _

theorem Read.byte_of_exhausted (position : Nat) :
    byte ⟨position, []⟩ =
      .error (.truncated (min (position + 1) (2 ^ 64 - 1)) position) ⟨position, []⟩ :=
  rfl

/-- Where the bytes end inside an integer, one more byte is asked for. -/
theorem Read.varuint_of_truncated (bounded : reader.size < 2 ^ 63) (few : reader.remaining < 10)
    (continued : ∀ group ∈ reader.rest, group &&& 0x80 ≠ 0) :
    varuint reader = .error (.truncated (reader.size + 1) reader.size) ⟨reader.size, []⟩ := by
  have passes : reader.Passes reader.rest ⟨reader.size, []⟩ := ⟨by simp, rfl⟩
  obtain ⟨more, count⟩ : ∃ more, maxVaruintLength = reader.rest.length + (more + 1) :=
    ⟨9 - reader.rest.length, by simp only [Reader.remaining, maxVaruintLength] at few ⊢; omega⟩
  obtain ⟨sum, goesOn⟩ :=
    varuintFrom_of_continued reader.position continued passes (more + 1) 0 0
  have need : min (reader.size + 1) (2 ^ 64 - 1) = reader.size + 1 := by omega
  change varuintFrom reader.position maxVaruintLength 0 0 reader = _
  rw [count, goesOn, varuintFrom, bind_apply, byte_of_exhausted, need]

theorem Read.varuint_of_continued (passes : reader.Passes groups middle)
    (count : groups.length = maxVaruintLength) (continued : ∀ group ∈ groups, group &&& 0x80 ≠ 0) :
    varuint reader = .error (.varuintTooLong reader.position) middle := by
  obtain ⟨sum, goesOn⟩ := varuintFrom_of_continued reader.position continued passes 0 0 0
  change varuintFrom reader.position maxVaruintLength 0 0 reader = _
  rw [← count, ← Nat.add_zero groups.length, goesOn]
  rfl

end Continued

/-! ## Shifts -/

/-- A group at an index below ten is shifted by less than 64 bits. -/
theorem varuintFromBy_eq {shift : UInt64 → Nat → Read UInt64}
    (within : ∀ low amount, amount < 64 → shift low amount = pure (low <<< UInt64.ofNat amount))
    (start : Nat) {more index : Nat} (inside : index + more ≤ 10) (value : UInt64) :
    varuintFromBy shift start more index value = Read.varuintFrom start more index value := by
  induction more generalizing index value with
  | zero => rfl
  | succ more ih =>
      have amount : 7 * index < 64 := by omega
      simp only [varuintFromBy, Read.varuintFrom, within _ _ amount, pure_bind]
      congr 1
      funext group
      split
      · rfl
      · exact ih (by omega) _

theorem varuintBy_eq {shift : UInt64 → Nat → Read UInt64}
    (within : ∀ low amount, amount < 64 → shift low amount = pure (low <<< UInt64.ofNat amount))
    (reader : Reader) : varuintBy shift reader = Read.varuint reader := by
  have inside : 0 + maxVaruintLength ≤ 10 := by decide
  exact congrFun (varuintFromBy_eq within reader.position inside 0) reader

/-! ## Arbitrary bytes -/

theorem forall_mem_take {bytes : List UInt8} {count : Nat}
    (continued : ∀ i < count, bytes.getD i 0 &&& 0x80 ≠ 0) :
    ∀ group ∈ bytes.take count, group &&& 0x80 ≠ 0 := by
  intro group member
  obtain ⟨i, early, rfl⟩ := List.mem_take_iff_getElem.mp member
  have inside : i < bytes.length := by omega
  simpa [inside] using continued i (by omega)

/-- Reading an integer in groups from any bytes, with `group i` for the byte at `i` from the reader
on. If one of the first ten has its high bit clear, the first such is the last group: the integer
is the sum of the groups up to it modulo 2^64, of which only the upper six bits of a tenth group
are lost, and every longer form that adds nothing gives the same integer. If fewer than ten bytes
are left and all go on, one more is asked for at the end, and if ten go on the integer is refused
behind them. No group is shifted by 64 bits or more: a shift that does anything else there, or
fails, changes nothing. -/
theorem varuint_by_groups (reader : Reader) :
    let group (i : Nat) : UInt8 := reader.rest.getD i 0
    (∀ last < 10, last < reader.remaining → (∀ i < last, group i &&& 0x80 ≠ 0) →
        group last &&& 0x80 = 0 →
      ∃ value : UInt64,
        Read.varuint reader =
            .ok value ⟨reader.position + (last + 1), reader.rest.drop (last + 1)⟩ ∧
          value.toNat = (∑ i ∈ range (last + 1), (group i).toNat % 128 * 128 ^ i) % 2 ^ 64 ∧
          value.toNat =
            ∑ i ∈ range (last + 1), (group i).toNat % (if i = 9 then 2 else 128) * 128 ^ i ∧
          ∀ more suffix, last + 1 + more < 10 →
            Read.varuint
                ⟨reader.position, overlong (reader.rest.take (last + 1)) more ++ suffix⟩ =
              .ok value ⟨reader.position + (last + 1 + more + 1), suffix⟩) ∧
      (reader.size < 2 ^ 63 → reader.remaining < 10 →
        (∀ i < reader.remaining, group i &&& 0x80 ≠ 0) →
          Read.varuint reader =
            .error (.truncated (reader.size + 1) reader.size) ⟨reader.size, []⟩) ∧
      (10 ≤ reader.remaining → (∀ i < 10, group i &&& 0x80 ≠ 0) →
        Read.varuint reader =
          .error (.varuintTooLong reader.position)
            ⟨reader.position + 10, reader.rest.drop 10⟩) ∧
      ∀ shift : UInt64 → Nat → Read UInt64,
        (∀ low amount, amount < 64 → shift low amount = pure (low <<< UInt64.ofNat amount)) →
          varuintBy shift reader = Read.varuint reader := by
  intro group
  refine ⟨?ends, ?truncated, ?endless, fun shift within => varuintBy_eq within reader⟩
  case ends =>
    intro last short inside continued ends
    have length : (reader.rest.take (last + 1)).length = last + 1 := List.length_take_of_le inside
    have denotes : Denotes (reader.rest.take (last + 1))
        (UInt64.ofNat (groupsValue (reader.rest.take (last + 1)))) :=
      ⟨delimited_take inside continued ends, by rw [length]; exact short, rfl⟩
    have sum : (UInt64.ofNat (groupsValue (reader.rest.take (last + 1)))).toNat =
        (∑ i ∈ range (last + 1), (group i).toNat % 128 * 128 ^ i) % 2 ^ 64 := by
      rw [UInt64.toNat_ofNat', groupsValue_take]
    refine ⟨_, Read.varuint_eq_ok_iff.mpr ⟨_, denotes, reader.passes_take inside⟩, sum,
      sum.trans (sum_groups_mod reader.rest short), ?_⟩
    intro more suffix room
    refine Read.varuint_eq_ok_iff.mpr ⟨_, denotes_overlong denotes (by rwa [length]), rfl, ?_⟩
    rw [length_overlong, length]
  case truncated =>
    intro bounded few continued
    have all := forall_mem_take continued
    rw [Reader.remaining, List.take_length] at all
    exact Read.varuint_of_truncated bounded few all
  case endless =>
    intro enough continued
    exact Read.varuint_of_continued (reader.passes_take enough) (List.length_take_of_le enough)
      (forall_mem_take continued)

/-- The number 300 in two groups and in four, bytes that end too early, and a shift that fails where
it would leave the integer. -/
theorem varuint_by_groups_continued :
    (∃ value : UInt64, value.toNat = 300 ∧
      Read.varuint ⟨5, [0xac, 0x02, 7]⟩ = .ok value ⟨7, [7]⟩ ∧
        Read.varuint ⟨5, [0xac, 0x82, 0x80, 0x00, 9]⟩ = .ok value ⟨9, [9]⟩) ∧
      Read.varuint ⟨5, [0x80, 0xff]⟩ = .error (.truncated 8 7) ⟨7, []⟩ ∧
      varuintBy
          (fun low amount =>
            if amount < 64 then pure (low <<< UInt64.ofNat amount) else throw .unbalanced)
          ⟨5, [0xac, 0x02, 7]⟩ =
        Read.varuint ⟨5, [0xac, 0x02, 7]⟩ := by
  obtain ⟨ends, -, -, shifted⟩ := varuint_by_groups ⟨5, [0xac, 0x02, 7]⟩
  obtain ⟨-, truncated, -, -⟩ := varuint_by_groups ⟨5, [0x80, 0xff]⟩
  refine ⟨?_, truncated (by decide) (by decide) (by decide), shifted _ ?_⟩
  · obtain ⟨value, found, sum, -, longer⟩ :=
      ends 1 (by decide) (by decide) (by decide) (by decide)
    exact ⟨value, sum, found, longer 1 [9] (by decide)⟩
  · intro low amount small
    simp [small]

end SchemaWire.Wire
