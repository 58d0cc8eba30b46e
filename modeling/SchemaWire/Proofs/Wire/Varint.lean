import SchemaWire.Power
import SchemaWire.Wire.Varint

/-!
# Groups of seven bits

What a list of groups denotes, and that the groups written for an integer denote it, are delimited
by their high bits and are as few as possible. Signed integers fold onto the unsigned ones without
loss.
-/

set_option autoImplicit false

namespace SchemaWire.Wire

/-- The groups of one integer: the high bit is clear on the last of them and set on the others. -/
def Delimited : List UInt8 → Prop
  | [] => False
  | group :: rest => if group &&& 0x80 = 0 then rest = [] else Delimited rest

/-- The number that groups denote, the lowest first. It is not bounded: what a 64-bit integer
loses of it is for the reader to say. -/
def groupsValue : List UInt8 → Nat
  | [] => 0
  | group :: rest => group.toNat % 128 + 128 * groupsValue rest

theorem Delimited.length_pos {groups : List UInt8} (delimited : Delimited groups) :
    0 < groups.length := by
  cases groups with
  | nil => exact delimited.elim
  | cons group rest => simp

theorem groupsValue_lt (groups : List UInt8) : groupsValue groups < 2 ^ (7 * groups.length) := by
  induction groups with
  | nil => simp [groupsValue]
  | cons group rest ih =>
      have grown : 2 ^ (7 * (rest.length + 1)) = 128 * 2 ^ (7 * rest.length) := by
        rw [Nat.mul_add, Nat.pow_add, Nat.mul_comm]
      simp only [groupsValue, List.length_cons, grown]
      omega

theorem groupsValue_append (left right : List UInt8) :
    groupsValue (left ++ right) = groupsValue left + 128 ^ left.length * groupsValue right := by
  induction left with
  | nil => simp [groupsValue]
  | cons group left ih =>
      simp only [List.cons_append, groupsValue, ih, List.length_cons, Nat.pow_succ']
      rw [Nat.mul_add, Nat.add_assoc, Nat.mul_assoc]

/-! ## Single groups -/

theorem highBit_eq_zero_iff (group : UInt8) : group &&& 0x80 = 0 ↔ group.toNat < 128 := by
  cases group with
  | ofBitVec group =>
    cases group with
    | ofFin group => revert group; decide +kernel

/-- Setting the high bit continues a group and leaves its share of the number alone. -/
theorem continue_group (group : UInt8) :
    (group ||| 0x80) &&& 0x80 ≠ 0 ∧ (group ||| 0x80).toNat % 128 = group.toNat % 128 := by
  cases group with
  | ofBitVec group =>
    cases group with
    | ofFin group => revert group; decide +kernel

theorem toNat_lowBits (group : UInt8) : (group &&& 0x7f).toNat = group.toNat % 128 := by
  rw [UInt8.toNat_and]
  exact Nat.and_two_pow_sub_one_eq_mod group.toNat 7

/-- Setting the bits of a group above those of the groups before it adds its share of the number,
up to the bits that do not fit. -/
theorem toNat_or_group {value : UInt64} (group : UInt8) {index : Nat} (inside : index < 10)
    (below : value.toNat < 2 ^ (7 * index)) :
    (value ||| (group &&& 0x7f).toUInt64 <<< UInt64.ofNat (7 * index)).toNat =
      (value.toNat + 2 ^ (7 * index) * (group.toNat % 128)) % 2 ^ 64 := by
  have shift : (UInt64.ofNat (7 * index)).toNat % 64 = 7 * index := by
    rw [UInt64.toNat_ofNat']; omega
  have word : 2 ^ 64 = 2 ^ (7 * index) * 2 ^ (64 - 7 * index) := by
    rw [← Nat.pow_add]; congr 1; omega
  rw [UInt64.toNat_or, UInt64.toNat_shiftLeft, shift, UInt8.toNat_toUInt64, toNat_lowBits,
    Nat.shiftLeft_eq]
  generalize group.toNat % 128 = low
  have first : (value.toNat + 2 ^ (7 * index) * low) % 2 ^ (7 * index) = value.toNat := by
    rw [Nat.add_mul_mod_self_left, Nat.mod_eq_of_lt below]
  have second : (value.toNat + 2 ^ (7 * index) * low) / 2 ^ (7 * index) = low := by
    rw [Nat.add_mul_div_left _ _ (Nat.two_pow_pos _), Nat.div_eq_of_lt below, Nat.zero_add]
  rw [word, Nat.mul_comm low, Nat.mul_mod_mul_left, Nat.or_comm,
    ← Nat.two_pow_add_eq_or_of_lt below, Nat.mod_mul, first, second, Nat.add_comm]

theorem toNat_continuedGroup (value : UInt64) :
    (value.toUInt8 &&& 0x7f ||| 0x80).toNat = value.toNat % 128 + 128 := by
  have low : (value.toUInt8 &&& 0x7f).toNat = value.toNat % 128 := by
    rw [toNat_lowBits, UInt64.toNat_toUInt8]; omega
  rw [UInt8.toNat_or, low, Nat.or_comm]
  exact (Nat.two_pow_add_eq_or_of_lt (i := 7) (Nat.mod_lt _ (by decide)) 1).symm.trans
    (Nat.add_comm _ _)

theorem toNat_shiftRight_seven (value : UInt64) : (value >>> 7).toNat = value.toNat / 128 := by
  rw [UInt64.toNat_shiftRight]
  exact Nat.shiftRight_eq_div_pow value.toNat 7

theorem toNat_lastGroup {value : UInt64} (small : value.toNat < 128) :
    value.toUInt8.toNat = value.toNat := by
  rw [UInt64.toNat_toUInt8]
  omega

/-! ## The groups that are written -/

/-- Induction over the groups that are written: a number below 128 is its own only group, and a
greater one has its low seven bits before the groups of the rest. -/
theorem varuintBytes_induction {motive : UInt64 → List UInt8 → Prop}
    (last : ∀ value : UInt64, value.toNat < 128 → motive value [value.toUInt8])
    (more : ∀ (value : UInt64) (rest : List UInt8), 128 ≤ value.toNat →
      motive (value >>> 7) rest → motive value ((value.toUInt8 &&& 0x7f ||| 0x80) :: rest))
    (value : UInt64) : motive value (varuintBytes value) := by
  have groups : ∀ (count : Nat) (value : UInt64), value.toNat < 2 ^ (7 * (count + 1)) →
      motive value (varuintGroups count value) := by
    intro count
    induction count with
    | zero => exact last
    | succ count ih =>
        intro value fits
        unfold varuintGroups
        by_cases small : value ≤ 0x7f
        · rw [if_pos small]
          exact last value (Nat.lt_succ_of_le (UInt64.le_iff_toNat_le.mp small))
        · rw [if_neg small]
          have large : 128 ≤ value.toNat := by
            rw [UInt64.le_iff_toNat_le] at small
            exact Nat.lt_of_not_le small
          refine more value _ large (ih (value >>> 7) ?_)
          rw [toNat_shiftRight_seven, Nat.div_lt_iff_lt_mul (by decide)]
          calc value.toNat < 2 ^ (7 * (count + 1 + 1)) := fits
            _ = 2 ^ (7 * (count + 1)) * 128 := by rw [Nat.mul_add 7 (count + 1), Nat.pow_add]
  refine groups (maxVaruintLength - 1) value (Nat.lt_trans value.toNat_lt ?_)
  decide

theorem varuintBytes_delimited (value : UInt64) : Delimited (varuintBytes value) := by
  induction value using varuintBytes_induction with
  | last value small =>
      have clear : value.toUInt8 &&& 0x80 = 0 := by
        rw [highBit_eq_zero_iff, toNat_lastGroup small]; exact small
      simp [Delimited, clear]
  | more value rest _ ih =>
      have set : ¬ (value.toUInt8 &&& 0x7f ||| 0x80) &&& 0x80 = 0 := by
        rw [highBit_eq_zero_iff, toNat_continuedGroup]; omega
      simpa [Delimited, set] using ih

theorem groupsValue_varuintBytes (value : UInt64) :
    groupsValue (varuintBytes value) = value.toNat := by
  induction value using varuintBytes_induction with
  | last value small =>
      simp only [groupsValue, toNat_lastGroup small]
      omega
  | more value rest _ ih =>
      simp only [groupsValue, toNat_continuedGroup, ih, toNat_shiftRight_seven]
      omega

/-! ## How many groups -/

theorem varuintLength_pos (value : UInt64) : 0 < varuintLength value := by
  unfold varuintLength
  omega

/-- An integer takes more groups exactly if it has bits past so many. -/
theorem varuintLength_le_iff (value : UInt64) (count : Nat) :
    varuintLength value ≤ count + 1 ↔ value.toNat < 2 ^ (7 * (count + 1)) := by
  have raised : (value ||| 1).toNat = value.toNat ||| 1 := by
    rw [UInt64.toNat_or]; rfl
  have nonzero : value.toNat ||| 1 ≠ 0 :=
    Nat.ne_of_gt (Nat.lt_of_lt_of_le Nat.zero_lt_one Nat.right_le_or)
  have bits : Nat.log2 (value.toNat ||| 1) < 7 * (count + 1) ↔
      value.toNat < 2 ^ (7 * (count + 1)) := by
    rw [Nat.log2_lt nonzero]
    constructor
    · exact Nat.lt_of_le_of_lt Nat.left_le_or
    · intro below
      exact Nat.or_lt_two_pow below (Nat.one_lt_two_pow (by omega))
  rw [← bits, varuintLength, raised]
  omega

theorem varuintLength_of_small {value : UInt64} (small : value.toNat < 128) :
    varuintLength value = 1 := by
  have := (varuintLength_le_iff value 0).mpr small
  have := varuintLength_pos value
  omega

theorem varuintLength_of_large {value : UInt64} (large : 128 ≤ value.toNat) :
    varuintLength value = varuintLength (value >>> 7) + 1 := by
  have step : ∀ count,
      varuintLength value ≤ count + 2 ↔ varuintLength (value >>> 7) ≤ count + 1 := by
    intro count
    rw [varuintLength_le_iff, varuintLength_le_iff, toNat_shiftRight_seven,
      Nat.div_lt_iff_lt_mul (by decide), Nat.mul_add 7 (count + 1), Nat.pow_add]
  have several : ¬ varuintLength value ≤ 0 + 1 := by
    rw [varuintLength_le_iff]; omega
  have short := varuintLength_pos (value >>> 7)
  have upper := (step (varuintLength (value >>> 7) - 1)).mpr (by omega)
  have lower := (step (varuintLength value - 2)).mp (by omega)
  omega

theorem varuintLength_le_of_le {small large : UInt64} (least : small.toNat ≤ large.toNat) :
    varuintLength small ≤ varuintLength large := by
  have positive := varuintLength_pos large
  obtain ⟨count, counted⟩ : ∃ count, varuintLength large = count + 1 :=
    ⟨varuintLength large - 1, by omega⟩
  rw [counted, varuintLength_le_iff]
  exact Nat.lt_of_le_of_lt least ((varuintLength_le_iff large count).mp (by omega))

theorem length_varuintBytes (value : UInt64) :
    (varuintBytes value).length = varuintLength value := by
  induction value using varuintBytes_induction with
  | last value small => rw [varuintLength_of_small small, List.length_singleton]
  | more value rest large ih => rw [varuintLength_of_large large, List.length_cons, ih]

/-! ## Forms of an integer -/

/-- The groups are a form of a 64-bit integer: delimited, not too many, and equal to it up to the
bits past the sixty-fourth. -/
structure Denotes (groups : List UInt8) (value : UInt64) : Prop where
  delimited : Delimited groups
  short : groups.length ≤ maxVaruintLength
  value_eq : UInt64.ofNat (groupsValue groups) = value

theorem varuintBytes_denotes (value : UInt64) : Denotes (varuintBytes value) value where
  delimited := varuintBytes_delimited value
  short := by
    rw [length_varuintBytes]
    exact (varuintLength_le_iff value 9).mpr (Nat.lt_trans value.toNat_lt (by decide))
  value_eq := by rw [groupsValue_varuintBytes, UInt64.ofNat_toNat]

theorem Denotes.length_pos {groups : List UInt8} {value : UInt64}
    (denotes : Denotes groups value) : 0 < groups.length :=
  denotes.delimited.length_pos

/-- The form that is written is a shortest one. -/
theorem Denotes.length_varuintBytes_le {groups : List UInt8} {value : UInt64}
    (denotes : Denotes groups value) : (varuintBytes value).length ≤ groups.length := by
  have nonempty := denotes.length_pos
  have denoted : value.toNat ≤ groupsValue groups := by
    rw [← denotes.value_eq, UInt64.toNat_ofNat']
    exact Nat.mod_le _ _
  have fits := Nat.lt_of_le_of_lt denoted (groupsValue_lt groups)
  obtain ⟨count, counted⟩ : ∃ count, groups.length = count + 1 :=
    ⟨groups.length - 1, by omega⟩
  rw [counted] at fits ⊢
  rw [length_varuintBytes, varuintLength_le_iff]
  exact fits

/-! ## Signed integers -/

theorem toBitVec_zigzag (value : Int64) :
    (zigzag value).toBitVec = value.toBitVec <<< 1 ^^^ value.toBitVec.sshiftRight 63 := by
  simp [zigzag]

theorem toBitVec_unzigzag (value : UInt64) :
    (unzigzag value).toBitVec = value.toBitVec >>> 1 ^^^ -(value.toBitVec &&& 1) := by
  simp [unzigzag]

/-- An integer that is not negative is doubled, and a negative one gives an odd number. -/
theorem toNat_zigzag (value : Int64) :
    ((zigzag value).toNat : Int) =
      if value.toInt < 0 then -2 * value.toInt - 1 else 2 * value.toInt := by
  have bound := value.toBitVec.isLt
  have signed : value.toInt = value.toBitVec.toInt := rfl
  rw [← UInt64.toNat_toBitVec, toBitVec_zigzag, signed, BitVec.toInt_eq_msb_cond]
  cases sign : value.toBitVec.msb with
  | false =>
      rw [BitVec.msb_eq_false_iff_two_mul_lt] at sign
      have clear : value.toBitVec >>> 63 = 0#64 := by
        apply BitVec.eq_of_toNat_eq
        rw [BitVec.toNat_ushiftRight, Nat.shiftRight_eq_div_pow, BitVec.toNat_ofNat]
        omega
      rw [BitVec.sshiftRight_eq_of_msb_false (BitVec.msb_eq_false_iff_two_mul_lt.mpr sign), clear,
        BitVec.xor_zero, BitVec.toNat_shiftLeft, Nat.shiftLeft_eq]
      simp only [Bool.false_eq_true, ↓reduceIte]
      omega
  | true =>
      have upper : 2 ^ 64 ≤ 2 * value.toBitVec.toNat := BitVec.msb_eq_true_iff_two_mul_ge.mp sign
      have set : ~~~value.toBitVec >>> 63 = 0#64 := by
        apply BitVec.eq_of_toNat_eq
        rw [BitVec.toNat_ushiftRight, Nat.shiftRight_eq_div_pow, BitVec.toNat_not,
          BitVec.toNat_ofNat]
        omega
      rw [BitVec.sshiftRight_eq_of_msb_true sign, set, BitVec.not_zero, BitVec.xor_allOnes,
        BitVec.toNat_not, BitVec.toNat_shiftLeft, Nat.shiftLeft_eq]
      simp only [↓reduceIte]
      omega

/-- The signed integers of so many bits are folded onto the unsigned ones of so many bits. -/
theorem zigzag_lt_iff (value : Int64) {bits : Nat} (positive : 1 ≤ bits) :
    (zigzag value).toNat < 2 ^ bits ↔
      -(2 ^ (bits - 1)) ≤ value.toInt ∧ value.toInt < 2 ^ (bits - 1) := by
  obtain ⟨half, rfl⟩ : ∃ half, bits = half + 1 := ⟨bits - 1, by omega⟩
  have folded := toNat_zigzag value
  have whole : ((2 ^ (half + 1) : Nat) : Int) = 2 * 2 ^ half := by
    rw [Int.natCast_pow, Int.pow_succ, Int.mul_comm]
    rfl
  rw [← Int.ofNat_lt, whole, Nat.add_sub_cancel]
  generalize (2 : Int) ^ half = bound
  split at folded <;> omega

/-- On either side of zero a greater magnitude is folded onto a greater number. -/
theorem zigzag_le_of_magnitude {near far : Int64}
    (farther : 0 ≤ near.toInt ∧ near.toInt ≤ far.toInt ∨
      far.toInt ≤ near.toInt ∧ near.toInt ≤ 0) : (zigzag near).toNat ≤ (zigzag far).toNat := by
  have nearFolded := toNat_zigzag near
  have farFolded := toNat_zigzag far
  split at nearFolded <;> split at farFolded <;> omega

theorem toInt_unzigzag (value : UInt64) :
    (unzigzag value).toInt =
      if value.toNat % 2 = 0 then (value.toNat / 2 : Int) else -(value.toNat / 2 : Int) - 1 := by
  have bound := value.toNat_lt
  have signed : (unzigzag value).toInt = (unzigzag value).toBitVec.toInt := rfl
  have half : (value.toBitVec >>> 1).toNat = value.toNat / 2 := by
    rw [BitVec.toNat_ushiftRight, Nat.shiftRight_eq_div_pow, UInt64.toNat_toBitVec]
  have low : (value.toBitVec &&& 1).toNat = value.toNat % 2 := by
    rw [BitVec.toNat_and, UInt64.toNat_toBitVec]
    exact Nat.and_one_is_mod value.toNat
  rw [signed, toBitVec_unzigzag, BitVec.toInt_eq_toNat_cond]
  rcases Nat.mod_two_eq_zero_or_one value.toNat with even | odd
  · have clear : value.toBitVec &&& 1 = 0#64 := BitVec.eq_of_toNat_eq (low.trans even)
    rw [clear, BitVec.neg_zero, BitVec.xor_zero, half, if_pos even]
    omega
  · have set : value.toBitVec &&& 1 = 1#64 := BitVec.eq_of_toNat_eq (low.trans odd)
    rw [set, BitVec.neg_one_eq_allOnes, BitVec.xor_allOnes, BitVec.toNat_not, half,
      if_neg (by omega)]
    omega

theorem unzigzag_zigzag (value : Int64) : unzigzag (zigzag value) = value := by
  have folded := toNat_zigzag value
  have unfolded := toInt_unzigzag (zigzag value)
  apply Int64.toInt_inj.mp
  by_cases negative : value.toInt < 0
  · rw [if_pos negative] at folded
    rw [if_neg (by omega)] at unfolded
    omega
  · rw [if_neg negative] at folded
    rw [if_pos (by omega)] at unfolded
    omega

theorem zigzag_unzigzag (value : UInt64) : zigzag (unzigzag value) = value := by
  have folded := toNat_zigzag (unzigzag value)
  have unfolded := toInt_unzigzag value
  apply UInt64.toNat_inj.mp
  by_cases even : value.toNat % 2 = 0
  · rw [if_pos even] at unfolded
    rw [if_neg (by omega)] at folded
    omega
  · rw [if_neg even] at unfolded
    rw [if_pos (by omega)] at folded
    omega

end SchemaWire.Wire
