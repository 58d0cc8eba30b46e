import SchemaWire.Wire.BigEndian

/-!
# Fixed-width integers and their bytes

The bytes of a width and the numbers below its limit correspond to each other.
-/

set_option autoImplicit false

namespace SchemaWire.Wire

theorem length_bigEndian (width value : Nat) : (bigEndian width value).length = width := by
  induction width with
  | zero => rfl
  | succ width ih => rw [bigEndian, List.length_cons, ih]

private theorem foldl_bytes (bytes : List UInt8) (start : Nat) :
    bytes.foldl (fun value byte => value * 256 + byte.toNat) start =
      start * 256 ^ bytes.length + ofBigEndian bytes := by
  induction bytes generalizing start with
  | nil => simp [ofBigEndian]
  | cons byte rest ih =>
      simp only [ofBigEndian, List.foldl_cons, List.length_cons] at ih ⊢
      rw [ih, ih (0 * 256 + byte.toNat), Nat.zero_mul, Nat.zero_add, Nat.add_mul, Nat.pow_succ,
        Nat.mul_assoc, Nat.mul_comm 256, Nat.add_assoc]

theorem ofBigEndian_cons (byte : UInt8) (rest : List UInt8) :
    ofBigEndian (byte :: rest) = byte.toNat * 256 ^ rest.length + ofBigEndian rest := by
  rw [ofBigEndian, List.foldl_cons, foldl_bytes, Nat.zero_mul, Nat.zero_add]

theorem ofBigEndian_lt (bytes : List UInt8) : ofBigEndian bytes < 256 ^ bytes.length := by
  induction bytes with
  | nil => simp [ofBigEndian]
  | cons byte rest ih =>
      have byteBound : byte.toNat + 1 ≤ 256 := byte.toNat_lt
      rw [ofBigEndian_cons, List.length_cons]
      calc byte.toNat * 256 ^ rest.length + ofBigEndian rest
          < (byte.toNat + 1) * 256 ^ rest.length := by rw [Nat.succ_mul]; omega
        _ ≤ 256 * 256 ^ rest.length := Nat.mul_le_mul_right _ byteBound
        _ = 256 ^ (rest.length + 1) := by rw [Nat.pow_succ, Nat.mul_comm]

theorem ofBigEndian_bigEndian (width value : Nat) :
    ofBigEndian (bigEndian width value) = value % 256 ^ width := by
  induction width with
  | zero => simp [bigEndian, ofBigEndian, Nat.mod_one]
  | succ width ih =>
      have top : (UInt8.ofNat (value / 256 ^ width)).toNat = value / 256 ^ width % 256 :=
        UInt8.toNat_ofNat'
      rw [bigEndian, ofBigEndian_cons, ih, length_bigEndian, top, Nat.pow_succ, Nat.mod_mul,
        Nat.mul_comm (value / 256 ^ width % 256), Nat.add_comm]

/-- Bits above the width do not matter. -/
theorem bigEndian_add_mul (width value upper : Nat) :
    bigEndian width (value + upper * 256 ^ width) = bigEndian width value := by
  induction width generalizing upper with
  | zero => rfl
  | succ width ih =>
      have shift : upper * 256 ^ (width + 1) = upper * 256 * 256 ^ width := by
        rw [Nat.pow_succ, Nat.mul_comm (256 ^ width), Nat.mul_assoc]
      have top : UInt8.ofNat (value / 256 ^ width + upper * 256) =
          UInt8.ofNat (value / 256 ^ width) := by
        apply UInt8.toNat_inj.mp
        rw [UInt8.toNat_ofNat', UInt8.toNat_ofNat']
        omega
      rw [bigEndian, bigEndian, shift, ih, Nat.add_mul_div_right _ _ (Nat.pow_pos (by decide)), top]

theorem bigEndian_ofBigEndian (bytes : List UInt8) :
    bigEndian bytes.length (ofBigEndian bytes) = bytes := by
  induction bytes with
  | nil => rfl
  | cons byte rest ih =>
      have top : (ofBigEndian rest + byte.toNat * 256 ^ rest.length) / 256 ^ rest.length =
          byte.toNat := by
        rw [Nat.add_mul_div_right _ _ (Nat.pow_pos (by decide)),
          Nat.div_eq_of_lt (ofBigEndian_lt rest), Nat.zero_add]
      rw [List.length_cons, ofBigEndian_cons, Nat.add_comm (byte.toNat * _), bigEndian,
        bigEndian_add_mul, top, ih, UInt8.ofNat_toNat]

theorem bigEndian_emod (width value : Nat) :
    bigEndian width (value % 256 ^ width) = bigEndian width value := by
  have split := Nat.mod_add_div' value (256 ^ width)
  rw [← bigEndian_add_mul width _ (value / 256 ^ width), split]

/-! ## Signed integers -/

theorem signed_emod (width value : Nat) :
    signed width value % (256 ^ width : Nat) = (value : Int) % (256 ^ width : Nat) := by
  unfold signed
  split
  · rfl
  · rw [Int.natCast_pow]
    exact Int.sub_emod_right _ _

theorem signed_eq_bmod {width value : Nat} (positive : 0 < width) (small : value < 256 ^ width) :
    signed width value = (value : Int).bmod (256 ^ width) := by
  obtain ⟨half, even⟩ : 2 ∣ 256 ^ width :=
    Nat.dvd_trans (by decide : 2 ∣ 256 ^ 1) (Nat.pow_dvd_pow 256 positive)
  have known : ((256 : Int) ^ width) = (2 * half : Nat) := by
    rw [← even, Int.natCast_pow]
    rfl
  rw [signed, Int.bmod_def, ← Int.natCast_emod, Nat.mod_eq_of_lt small, known, even]
  have middle : ((2 * half : Nat) + 1 : Int) / 2 = half := by omega
  rw [middle]
  split <;> split <;> omega

theorem dvd_word {width : Nat} (small : width ≤ 8) :
    ((256 ^ width : Nat) : Int) ∣ (2 ^ 64 : Nat) :=
  Int.natCast_dvd_natCast.mpr (Nat.pow_dvd_pow 256 small)

/-- The low bytes of an integer are those of its two's complement. -/
theorem toInt_emod (number : Int64) {width : Nat} (small : width ≤ 8) :
    number.toInt % (256 ^ width : Nat) = (number.toUInt64.toNat % 256 ^ width : Nat) := by
  have whole : number.toInt = (number.toUInt64.toNat : Int).bmod (2 ^ 64) :=
    BitVec.toInt_eq_toNat_bmod number.toBitVec
  rw [whole, ← Int.emod_emod_of_dvd _ (dvd_word small), Int.bmod_emod,
    Int.emod_emod_of_dvd _ (dvd_word small), Int.natCast_emod]

theorem toNat_ofInt_emod (number : Int) {width : Nat} (small : width ≤ 8) :
    (((Int64.ofInt number).toUInt64.toNat % 256 ^ width : Nat) : Int) =
      number % (256 ^ width : Nat) := by
  have whole : (Int64.ofInt number).toUInt64.toNat = (number % (2 ^ 64 : Nat)).toNat :=
    BitVec.toNat_ofInt number
  rw [whole, Int.natCast_emod, Int.toNat_of_nonneg (Int.emod_nonneg _ (by decide)),
    Int.emod_emod_of_dvd _ (dvd_word small)]

end SchemaWire.Wire
