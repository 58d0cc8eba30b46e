import SchemaWire.Proofs.Wire.Utf8
import SchemaWire.Wire.Utf16

/-!
# UTF-16 both ways

The units of a text are read as that text, and units that are read as a text are its units. The
same holds of units and their bytes.
-/

set_option autoImplicit false

namespace SchemaWire.Wire.Utf16

open Utf8 (toNat_charOfNat charOfNat_eq_of_eq_toNat toNat_ofNat_of_lt)

theorem encode_cons (c : Char) (text : List Char) :
    encode (c :: text) = encodeChar c ++ encode text :=
  List.flatMap_cons

/-- A character is a unit of its own or a pair of surrogates. -/
theorem encodeChar_cases (c : Char) :
    (encodeChar c = [c.toNat] ∧ (c.toNat < 0xd800 ∨ 0xe000 ≤ c.toNat) ∧ c.toNat < 0x10000) ∨
      ∃ high low, encodeChar c = [high, low] ∧ (0xd800 ≤ high ∧ high < 0xdc00) ∧
        (0xdc00 ≤ low ∧ low < 0xe000) ∧
        c.toNat = 0x10000 + (high - 0xd800) * 0x400 + (low - 0xdc00) := by
  have valid : c.toNat < 0xd800 ∨ 0xdfff < c.toNat ∧ c.toNat < 0x110000 := c.valid
  by_cases small : c.toNat < 0x10000
  · exact .inl ⟨by rw [encodeChar, if_pos small], by omega, small⟩
  · refine .inr ⟨_, _, by rw [encodeChar, if_neg small], ?_, ?_, ?_⟩ <;> omega

theorem encodeChar_whole {unit : Nat} (whole : unit < 0xd800 ∨ 0xe000 ≤ unit)
    (small : unit < 0x10000) : encodeChar (Char.ofNat unit) = [unit] := by
  have valid : unit.isValidChar := by unfold Nat.isValidChar; omega
  rw [encodeChar, toNat_charOfNat valid, if_pos small]

theorem encodeChar_pair {high low : Nat} (highRange : 0xd800 ≤ high ∧ high < 0xdc00)
    (lowRange : 0xdc00 ≤ low ∧ low < 0xe000) :
    encodeChar (Char.ofNat (0x10000 + (high - 0xd800) * 0x400 + (low - 0xdc00))) =
      [high, low] := by
  rw [encodeChar, toNat_charOfNat (by unfold Nat.isValidChar; omega), if_neg (by omega)]
  refine List.cons_eq_cons.mpr ⟨?_, List.singleton_inj.mpr ?_⟩ <;> omega

theorem lt_of_mem_encode {text : List Char} {unit : Nat} (member : unit ∈ encode text) :
    unit < 0x10000 := by
  obtain ⟨c, -, member⟩ := List.mem_flatMap.mp member
  rcases encodeChar_cases c with ⟨single, -, small⟩ | ⟨high, low, pair, highRange, lowRange, -⟩
  · rw [single, List.mem_singleton] at member
    omega
  · rw [pair] at member
    simp only [List.mem_cons, List.not_mem_nil, or_false] at member
    omega

theorem decode?_whole {unit : Nat} (whole : unit < 0xd800 ∨ 0xe000 ≤ unit) (rest : List Nat) :
    decode? (unit :: rest) = (decode? rest).map (Char.ofNat unit :: ·) := by
  rw [decode?.eq_def]
  dsimp only
  rw [if_pos whole]
  cases decode? rest <;> rfl

theorem decode?_pair {high low : Nat} (highRange : 0xd800 ≤ high ∧ high < 0xdc00)
    (lowRange : 0xdc00 ≤ low ∧ low < 0xe000) (rest : List Nat) :
    decode? (high :: low :: rest) = (decode? rest).map
      (Char.ofNat (0x10000 + (high - 0xd800) * 0x400 + (low - 0xdc00)) :: ·) := by
  rw [decode?.eq_def]
  dsimp only
  rw [if_neg (by omega), if_pos highRange.2, if_pos lowRange]
  cases decode? rest <;> rfl

theorem decode?_encode (text : List Char) : decode? (encode text) = some text := by
  induction text with
  | nil => rfl
  | cons c text ih =>
      rw [encode_cons]
      rcases encodeChar_cases c with
        ⟨single, whole, -⟩ | ⟨high, low, pair, highRange, lowRange, code⟩
      · rw [single, List.singleton_append, decode?_whole whole, ih, Char.ofNat_toNat,
          Option.map_some]
      · rw [pair, List.cons_append, List.singleton_append, decode?_pair highRange lowRange, ih,
          charOfNat_eq_of_eq_toNat code.symm, Option.map_some]

theorem encode_of_decode? {units : List Nat} {text : List Char}
    (small : ∀ unit ∈ units, unit < 0x10000) (success : decode? units = some text) :
    encode text = units := by
  induction units using decode?.induct generalizing text with
  | case1 =>
      cases success
      rfl
  | case2 unit rest whole ih =>
      rw [decode?_whole whole] at success
      obtain ⟨last, decoded, rfl⟩ := Option.map_eq_some_iff.mp success
      rw [encode_cons, encodeChar_whole whole (small _ List.mem_cons_self),
        ih (fun unit member => small unit (List.mem_cons_of_mem _ member)) decoded,
        List.singleton_append]
  | case3 high surrogate leading low rest lowRange ih =>
      have highRange : 0xd800 ≤ high ∧ high < 0xdc00 := by omega
      rw [decode?_pair highRange lowRange] at success
      obtain ⟨last, decoded, rfl⟩ := Option.map_eq_some_iff.mp success
      have smallRest : ∀ unit ∈ rest, unit < 0x10000 := fun unit member =>
        small unit (List.mem_cons_of_mem _ (List.mem_cons_of_mem _ member))
      rw [encode_cons, encodeChar_pair highRange lowRange, ih smallRest decoded]
      rfl
  | case4 high surrogate leading low rest unpaired =>
      rw [decode?.eq_def] at success
      simp [surrogate, leading, unpaired] at success
  | case5 high surrogate leading =>
      rw [decode?.eq_def] at success
      simp [surrogate, leading] at success
  | case6 low rest surrogate trailing =>
      rw [decode?.eq_def] at success
      simp [surrogate, trailing] at success

theorem length_le_encode (text : List Char) : text.length ≤ (encode text).length := by
  induction text with
  | nil => exact Nat.le_refl 0
  | cons c rest ih =>
      rw [encode_cons, List.length_cons, List.length_append]
      rcases encodeChar_cases c with ⟨single, -⟩ | ⟨high, low, pair, -⟩
      · rw [single, List.length_singleton]
        omega
      · rw [pair, List.length_cons, List.length_singleton]
        omega

/-! ## Units as bytes -/

theorem toBytes_cons (unit : Nat) (units : List Nat) :
    toBytes (unit :: units) =
      UInt8.ofNat (unit % 256) :: UInt8.ofNat (unit / 256) :: toBytes units :=
  List.flatMap_cons

theorem length_toBytes (units : List Nat) : (toBytes units).length = units.length * 2 := by
  induction units with
  | nil => rfl
  | cons unit units ih =>
      rw [toBytes_cons, List.length_cons, List.length_cons, ih, List.length_cons]
      omega

theorem ofBytes_toBytes {units : List Nat} (small : ∀ unit ∈ units, unit < 0x10000) :
    ofBytes (toBytes units) = units := by
  induction units with
  | nil => rfl
  | cons unit units ih =>
      have unitSmall := small unit List.mem_cons_self
      rw [toBytes_cons, ofBytes, ih fun unit member => small unit (List.mem_cons_of_mem _ member),
        toNat_ofNat_of_lt (by omega), toNat_ofNat_of_lt (by omega),
        Nat.mod_add_div]

theorem toBytes_ofBytes {bytes : List UInt8} (even : bytes.length % 2 = 0) :
    toBytes (ofBytes bytes) = bytes ∧ ∀ unit ∈ ofBytes bytes, unit < 0x10000 := by
  induction bytes using ofBytes.induct with
  | case1 low high rest ih =>
      obtain ⟨restored, small⟩ := ih (by simp only [List.length_cons] at even; omega)
      have lowByte := low.toNat_lt
      have highByte := high.toNat_lt
      have lowPart : (low.toNat + 256 * high.toNat) % 256 = low.toNat := by omega
      have highPart : (low.toNat + 256 * high.toNat) / 256 = high.toNat := by omega
      constructor
      · rw [ofBytes, toBytes_cons, restored, lowPart, highPart, UInt8.ofNat_toNat,
          UInt8.ofNat_toNat]
      · intro unit member
        rw [ofBytes] at member
        rcases List.mem_cons.mp member with rfl | member
        · omega
        · exact small unit member
  | case2 bytes short =>
      match bytes, even, short with
      | [], _, _ => exact ⟨rfl, fun _ member => by cases member⟩
      | [_], even, _ => simp at even
      | low :: high :: rest, _, short => exact (short low high rest rfl).elim

end SchemaWire.Wire.Utf16
