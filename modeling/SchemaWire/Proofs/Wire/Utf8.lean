import SchemaWire.Proofs.Outcome
import SchemaWire.Wire.Utf8

/-!
# UTF-8 both ways

Bytes are read as a text exactly if they are the bytes of that text. A sequence that has begun is
completed by as many bytes as are owed, and the ranges it allows them are those of the characters
with its lead byte.
-/

set_option autoImplicit false

namespace SchemaWire.Wire.Utf8

open Outcome

theorem toNat_charOfNat {code : Nat} (valid : code.isValidChar) :
    (Char.ofNat code).toNat = code := by
  unfold Char.ofNat
  rw [dif_pos valid]
  rfl

/-- The bytes after a lead byte, of which only the first may be confined to a part of the range. -/
def Continues (least greatest : UInt8) : List UInt8 → Prop
  | [] => True
  | byte :: rest => (least ≤ byte ∧ byte ≤ greatest) ∧ Continues 0x80 0xbf rest

/-- The bits of a sequence with those of the bytes that follow. -/
def continued (bits : Nat) (others : List UInt8) : Nat :=
  others.foldl (fun bits byte => bits * 64 + (byte.toNat - 0x80)) bits

theorem continued_cons (bits : Nat) (byte : UInt8) (rest : List UInt8) :
    continued bits (byte :: rest) = continued (bits * 64 + (byte.toNat - 0x80)) rest := by
  rw [continued, continued, List.foldl_cons]

theorem continued_nil (bits : Nat) : continued bits [] = bits := by
  rw [continued, List.foldl_nil]

/-- As many bytes as an unfinished sequence is owed make its character. -/
theorem decodeFrom_append {index : Nat} {pending : Pending} {others rest : List UInt8}
    {last : List Char} (owes : 0 < pending.owed) (length : others.length = pending.owed)
    (continues : Continues pending.least pending.greatest others)
    (success : decodeFrom (index + others.length) none rest = .ok last) :
    decodeFrom index (some pending) (others ++ rest) =
      .ok (Char.ofNat (continued pending.bits others) :: last) := by
  induction others generalizing index pending with
  | nil =>
      rw [← length] at owes
      cases owes
  | cons byte others ih =>
      obtain ⟨allowed, continues⟩ := continues
      rw [List.length_cons, Nat.add_comm others.length, ← Nat.add_assoc] at success
      rw [List.cons_append, decodeFrom, continued_cons]
      simp only [allowed, and_self, ↓reduceIte]
      split
      · rename_i finished
        have none : others = [] := List.length_eq_zero_iff.mp (Nat.succ.inj (length.trans finished))
        subst none
        rw [List.nil_append, continued_nil]
        exact bind_pure_eq_ok_iff.mpr ⟨last, success, rfl⟩
      · rename_i unfinished
        have remaining : others.length = pending.owed - 1 := by
          rw [← length, List.length_cons, Nat.add_sub_cancel]
        exact ih (by dsimp only; omega) remaining continues success

theorem append_of_decodeFrom {index : Nat} {pending : Pending} {bytes : List UInt8}
    {text : List Char} (owes : 0 < pending.owed)
    (success : decodeFrom index (some pending) bytes = .ok text) :
    ∃ others rest last, bytes = others ++ rest ∧ others.length = pending.owed ∧
      Continues pending.least pending.greatest others ∧
      decodeFrom (index + others.length) none rest = .ok last ∧
      text = Char.ofNat (continued pending.bits others) :: last := by
  induction bytes generalizing index pending with
  | nil => cases success
  | cons byte bytes ih =>
      rw [decodeFrom] at success
      dsimp only at success
      split at success
      · rename_i allowed
        split at success
        · rename_i finished
          obtain ⟨last, read, rfl⟩ := bind_pure_eq_ok_iff.mp success
          refine ⟨[byte], bytes, last, rfl, finished.symm, ⟨allowed, trivial⟩, read, ?_⟩
          rw [continued_cons, continued_nil]
        · rename_i unfinished
          obtain ⟨others, rest, last, rfl, length, continues, read, rfl⟩ :=
            ih (by dsimp only; omega) success
          refine ⟨byte :: others, rest, last, rfl, ?_, ⟨allowed, continues⟩, ?_, by
            rw [continued_cons]⟩
          · dsimp only at length
            rw [List.length_cons, length]
            omega
          · rwa [List.length_cons, Nat.add_comm others.length, ← Nat.add_assoc]
      · cases success

/-! ## Lead bytes and characters -/

theorem begin?_two (index : Nat) (byte : UInt8) (low : 0xc2 ≤ byte.toNat)
    (high : byte.toNat ≤ 0xdf) :
    begin? index byte = some ⟨index, 1, 1, 0x80, 0xbf, byte.toNat - 0xc0⟩ := by
  rw [begin?, if_pos]
  exact ⟨UInt8.le_iff_toNat_le.mpr low, UInt8.le_iff_toNat_le.mpr high⟩

theorem begin?_three (index : Nat) (byte : UInt8) (low : 0xe0 ≤ byte.toNat)
    (high : byte.toNat ≤ 0xef) :
    ∃ least greatest, begin? index byte = some ⟨index, 1, 2, least, greatest, byte.toNat - 0xe0⟩ ∧
      (byte.toNat = 0xe0 ∧ least.toNat = 0xa0 ∨ byte.toNat ≠ 0xe0 ∧ least.toNat = 0x80) ∧
      (byte.toNat = 0xed ∧ greatest.toNat = 0x9f ∨
        byte.toNat ≠ 0xed ∧ greatest.toNat = 0xbf) := by
  simp only [begin?, UInt8.le_iff_toNat_le, ← UInt8.toNat_inj, UInt8.reduceToNat]
  grind

theorem begin?_four (index : Nat) (byte : UInt8) (low : 0xf0 ≤ byte.toNat)
    (high : byte.toNat ≤ 0xf4) :
    ∃ least greatest, begin? index byte = some ⟨index, 1, 3, least, greatest, byte.toNat - 0xf0⟩ ∧
      (byte.toNat = 0xf0 ∧ least.toNat = 0x90 ∨ byte.toNat ≠ 0xf0 ∧ least.toNat = 0x80) ∧
      (byte.toNat = 0xf4 ∧ greatest.toNat = 0x8f ∨
        byte.toNat ≠ 0xf4 ∧ greatest.toNat = 0xbf) := by
  simp only [begin?, UInt8.le_iff_toNat_le, ← UInt8.toNat_inj, UInt8.reduceToNat]
  grind

theorem begin?_eq_none {index : Nat} {byte : UInt8}
    (outside : byte.toNat < 0xc2 ∨ 0xf4 < byte.toNat) : begin? index byte = none := by
  simp only [begin?, UInt8.le_iff_toNat_le, ← UInt8.toNat_inj, UInt8.reduceToNat]
  grind

theorem ofNat_eq_of_toNat_eq {code : Nat} {byte : UInt8} (same : code = byte.toNat) :
    UInt8.ofNat code = byte := by
  rw [same, UInt8.ofNat_toNat]

theorem toNat_ofNat_of_lt {code : Nat} (small : code < 256) : (UInt8.ofNat code).toNat = code :=
  UInt8.toNat_ofNat_of_lt' small

theorem encodeChar_small {c : Char} (small : c.toNat < 0x80) :
    encodeChar c = [UInt8.ofNat c.toNat] := by
  rw [encodeChar, if_pos small]

theorem encodeChar_single {byte : UInt8} (small : byte.toNat < 0x80) :
    encodeChar (Char.ofNat byte.toNat) = [byte] := by
  have valid : byte.toNat.isValidChar := .inl (by omega)
  rw [encodeChar_small (by rwa [toNat_charOfNat valid]), toNat_charOfNat valid, UInt8.ofNat_toNat]

theorem cons_ofNat_eq {code : Nat} {byte : UInt8} {left right : List UInt8}
    (head : code = byte.toNat) (tail : left = right) :
    UInt8.ofNat code :: left = byte :: right := by
  rw [ofNat_eq_of_toNat_eq head, tail]

/-- What a lead byte begins and as many bytes as are owed complete are the bytes of a character. -/
theorem encodeChar_of_begin {index : Nat} {byte : UInt8} {pending : Pending} {others : List UInt8}
    (begins : begin? index byte = some pending) (length : others.length = pending.owed)
    (continues : Continues pending.least pending.greatest others) :
    encodeChar (Char.ofNat (continued pending.bits others)) = byte :: others := by
  by_cases outside : byte.toNat < 0xc2 ∨ 0xf4 < byte.toNat
  · rw [begin?_eq_none outside] at begins
    cases begins
  · by_cases two : byte.toNat ≤ 0xdf
    · rw [begin?_two index byte (by omega) two] at begins
      cases begins
      dsimp only at length continues ⊢
      obtain ⟨second, rfl⟩ := List.length_eq_one_iff.mp length
      simp only [Continues, UInt8.le_iff_toNat_le, UInt8.reduceToNat, and_true] at continues
      rw [continued_cons, continued_nil, encodeChar, toNat_charOfNat (.inl (by omega)),
        if_neg (by omega), if_pos (by omega)]
      exact cons_ofNat_eq (by omega) (cons_ofNat_eq (by omega) rfl)
    · by_cases three : byte.toNat ≤ 0xef
      · obtain ⟨least, greatest, row, leastCase, greatestCase⟩ :=
          begin?_three index byte (by omega) three
        rw [row] at begins
        cases begins
        dsimp only at length continues ⊢
        obtain ⟨second, third, rfl⟩ : ∃ second third, others = [second, third] :=
          ⟨_, _, List.eq_getElem_of_length_eq_two others length⟩
        simp only [Continues, UInt8.le_iff_toNat_le, UInt8.reduceToNat, and_true] at continues
        rw [continued_cons, continued_cons, continued_nil, encodeChar, toNat_charOfNat (by
          unfold Nat.isValidChar; omega), if_neg (by omega), if_neg (by omega), if_pos (by omega)]
        exact cons_ofNat_eq (by omega) (cons_ofNat_eq (by omega) (cons_ofNat_eq (by omega) rfl))
      · obtain ⟨least, greatest, row, leastCase, greatestCase⟩ :=
          begin?_four index byte (by omega) (by omega)
        rw [row] at begins
        cases begins
        dsimp only at length continues ⊢
        obtain ⟨second, third, fourth, rfl⟩ :
            ∃ second third fourth, others = [second, third, fourth] :=
          ⟨_, _, _, List.eq_getElem_of_length_eq_three others length⟩
        simp only [Continues, UInt8.le_iff_toNat_le, UInt8.reduceToNat, and_true] at continues
        rw [continued_cons, continued_cons, continued_cons, continued_nil, encodeChar,
          toNat_charOfNat (by unfold Nat.isValidChar; omega), if_neg (by omega), if_neg (by omega),
          if_neg (by omega)]
        exact cons_ofNat_eq (by omega) (cons_ofNat_eq (by omega)
          (cons_ofNat_eq (by omega) (cons_ofNat_eq (by omega) rfl)))

theorem charOfNat_eq_of_eq_toNat {code : Nat} {c : Char} (same : code = c.toNat) :
    Char.ofNat code = c := by
  rw [same, Char.ofNat_toNat]

/-- The bytes of a character past U+007F are a lead byte and what completes it. -/
theorem begin?_of_encodeChar (index : Nat) {c : Char} (large : 0x80 ≤ c.toNat) :
    ∃ byte pending others, encodeChar c = byte :: others ∧ begin? index byte = some pending ∧
      0x80 ≤ byte.toNat ∧ 0 < pending.owed ∧ others.length = pending.owed ∧
      Continues pending.least pending.greatest others ∧
      Char.ofNat (continued pending.bits others) = c := by
  have valid : c.toNat < 0xd800 ∨ 0xdfff < c.toNat ∧ c.toNat < 0x110000 := c.valid
  have byteOf : ∀ code < 256, ∃ byte : UInt8, UInt8.ofNat code = byte ∧ byte.toNat = code :=
    fun code small => ⟨_, rfl, toNat_ofNat_of_lt small⟩
  obtain ⟨last, lastEq, lastValue⟩ := byteOf (0x80 + c.toNat % 64) (by omega)
  by_cases two : c.toNat < 0x800
  · obtain ⟨lead, leadEq, leadValue⟩ := byteOf (0xc0 + c.toNat / 64) (by omega)
    refine ⟨lead, _, [last], ?_, begin?_two index lead (by omega) (by omega), by omega,
      Nat.one_pos, rfl, ?_, ?_⟩
    · rw [encodeChar, if_neg (by omega), if_pos two, leadEq, lastEq]
    · simp only [Continues, UInt8.le_iff_toNat_le, UInt8.reduceToNat, and_true]
      omega
    · rw [continued_cons, continued_nil]
      refine charOfNat_eq_of_eq_toNat ?_
      dsimp only
      omega
  · obtain ⟨middle, middleEq, middleValue⟩ := byteOf (0x80 + c.toNat / 64 % 64) (by omega)
    by_cases three : c.toNat < 0x10000
    · obtain ⟨lead, leadEq, leadValue⟩ := byteOf (0xe0 + c.toNat / 4096) (by omega)
      obtain ⟨least, greatest, row, leastCase, greatestCase⟩ :=
        begin?_three index lead (by omega) (by omega)
      refine ⟨lead, _, [middle, last], ?_, row, by omega, Nat.two_pos, rfl, ?_, ?_⟩
      · rw [encodeChar, if_neg (by omega), if_neg two, if_pos three, leadEq, middleEq, lastEq]
      · simp only [Continues, UInt8.le_iff_toNat_le, UInt8.reduceToNat, and_true]
        omega
      · rw [continued_cons, continued_cons, continued_nil]
        refine charOfNat_eq_of_eq_toNat ?_
        dsimp only
        omega
    · obtain ⟨lead, leadEq, leadValue⟩ := byteOf (0xf0 + c.toNat / 262144) (by omega)
      obtain ⟨second, secondEq, secondValue⟩ := byteOf (0x80 + c.toNat / 4096 % 64) (by omega)
      obtain ⟨least, greatest, row, leastCase, greatestCase⟩ :=
        begin?_four index lead (by omega) (by omega)
      refine ⟨lead, _, [second, middle, last], ?_, row, by omega, Nat.zero_lt_succ 2, rfl, ?_, ?_⟩
      · rw [encodeChar, if_neg (by omega), if_neg two, if_neg three, leadEq, secondEq, middleEq,
          lastEq]
      · simp only [Continues, UInt8.le_iff_toNat_le, UInt8.reduceToNat, and_true]
        omega
      · rw [continued_cons, continued_cons, continued_cons, continued_nil]
        refine charOfNat_eq_of_eq_toNat ?_
        dsimp only
        omega

/-! ## Texts -/

theorem encode_cons (c : Char) (text : List Char) :
    encode (c :: text) = encodeChar c ++ encode text :=
  List.flatMap_cons

theorem begin?_owed_pos {index : Nat} {byte : UInt8} {pending : Pending}
    (begins : begin? index byte = some pending) : 0 < pending.owed := by
  unfold begin? at begins
  grind

theorem decodeFrom_encode (index : Nat) (text : List Char) :
    decodeFrom index none (encode text) = .ok text := by
  induction text generalizing index with
  | nil => rfl
  | cons c text ih =>
      rw [encode_cons]
      by_cases small : c.toNat < 0x80
      · have value : (UInt8.ofNat c.toNat).toNat = c.toNat := toNat_ofNat_of_lt (by omega)
        have below : UInt8.ofNat c.toNat < 0x80 := by rwa [UInt8.lt_iff_toNat_lt, value]
        rw [encodeChar_small small, List.singleton_append, decodeFrom, if_pos below, ih, value,
          Char.ofNat_toNat]
        rfl
      · obtain ⟨lead, pending, others, sequence, begins, large, owes, length, continues, char⟩ :=
          begin?_of_encodeChar index (Nat.le_of_not_lt small)
        have above : ¬ lead < 0x80 := by
          rw [UInt8.lt_iff_toNat_lt]
          exact Nat.not_lt_of_le large
        rw [sequence, List.cons_append, decodeFrom, if_neg above, begins]
        dsimp only
        rw [decodeFrom_append owes length continues (ih _), char]

/-- The induction is on the number of bytes, since a sequence takes several at once. -/
theorem eq_encode_of_decodeFrom {index : Nat} {bytes : List UInt8} {text : List Char}
    (success : decodeFrom index none bytes = .ok text) : bytes = encode text := by
  induction size : bytes.length using Nat.strongRecOn generalizing index bytes text with
  | ind count ih =>
  cases bytes with
  | nil =>
      cases success
      rfl
  | cons byte bytes =>
      subst size
      rw [decodeFrom] at success
      split at success
      · rename_i small
        obtain ⟨last, read, rfl⟩ := bind_pure_eq_ok_iff.mp success
        have same := ih _ (Nat.lt_succ_self bytes.length) read rfl
        rw [encode_cons, encodeChar_single (UInt8.lt_iff_toNat_lt.mp small), List.singleton_append,
          same]
      · cases begins : begin? index byte with
        | none =>
            rw [begins] at success
            cases success
        | some pending =>
            rw [begins] at success
            obtain ⟨others, rest, last, rfl, length, continues, read, rfl⟩ :=
              append_of_decodeFrom (begin?_owed_pos begins) success
            have shorter : rest.length < (byte :: (others ++ rest)).length := by
              rw [List.length_cons, List.length_append]
              omega
            rw [encode_cons, encodeChar_of_begin begins length continues, List.cons_append,
              ih _ shorter read rfl]

/-- The bytes of a character are those that the standard library gives it. -/
theorem encodeChar_eq (c : Char) : encodeChar c = String.utf8EncodeChar c := by
  have code : c.toNat = c.val.toNat := rfl
  have valid : c.toNat < 0xd800 ∨ 0xdfff < c.toNat ∧ c.toNat < 0x110000 := c.valid
  have two : c.toNat < 0x800 → c.toNat / 64 % 32 = c.toNat / 64 := by omega
  have three : c.toNat < 0x10000 → c.toNat / 4096 % 16 = c.toNat / 4096 := by omega
  have four : c.toNat / 262144 % 8 = c.toNat / 262144 := by omega
  simp only [encodeChar, String.utf8EncodeChar, ← code]
  grind

theorem toByteArray_encode (text : String) : (encode text.toList).toByteArray = text.toUTF8 := by
  have same : encode text.toList = text.toList.flatMap String.utf8EncodeChar := by
    rw [encode, funext encodeChar_eq]
  rw [same, String.toUTF8, ← String.utf8Encode_toList, List.utf8Encode]

theorem length_encode (text : String) : (encode text.toList).length = text.utf8ByteSize := by
  rw [← List.size_toByteArray, toByteArray_encode, String.toUTF8, String.size_toByteArray]

theorem decode_eq_ok_iff {bytes : List UInt8} {text : List Char} :
    decode bytes = .ok text ↔ bytes = encode text := by
  constructor
  · exact eq_encode_of_decodeFrom
  · rintro rfl
    exact decodeFrom_encode 0 text

end SchemaWire.Wire.Utf8
