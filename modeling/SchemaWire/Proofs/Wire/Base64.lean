import SchemaWire.Proofs.Outcome
import SchemaWire.Proofs.Wire.Utf8
import SchemaWire.Wire.Base64

/-!
# Base64 both ways

A text is base64 exactly if it shows the symbols of some bytes with the padding that completes the
last group, and the bytes can be told from the symbols.
-/

set_option autoImplicit false

namespace SchemaWire.Wire.Base64

open Outcome
open Utf8 (toNat_ofNat_of_lt cons_ofNat_eq)

/-! ## Symbols -/

theorem symbolValue?_symbol {value : Nat} (small : value < 64) :
    symbolValue? (symbol value) = some value := by
  revert value
  decide

theorem symbol_of_symbolValue? {byte : UInt8} {value : Nat}
    (denotes : symbolValue? byte = some value) : symbol value = byte ∧ value < 64 := by
  revert denotes
  have rows : ∀ byte : UInt8, (symbolValue? byte).all (fun value =>
      symbol value == byte && value < 64) = true := by
    intro byte
    cases byte with
    | ofBitVec byte =>
      cases byte with
      | ofFin byte => revert byte; decide +kernel
  intro denotes
  have row := rows byte
  rw [denotes] at row
  simpa using row

theorem symbol_range (value : Nat) : (symbol value).toNat < 0x80 ∧ symbol value ≠ padding := by
  have rows : ∀ value < 64, (symbol value).toNat < 0x80 ∧ symbol value ≠ padding := by decide
  by_cases small : value < 64
  · exact rows value small
  · have last : symbol value = symbol 63 := by
      simp only [symbol]
      rw [if_neg (by omega), if_neg (by omega), if_neg (by omega), if_neg (by omega)]
      rfl
    rw [last]
    exact rows 63 (by decide)

/-- The symbols of whole bytes: no group has only one symbol, and the bits of the last symbol that
belong to no byte are zero. -/
structure Regular (values : List Nat) : Prop where
  small : ∀ value ∈ values, value < 64
  whole : values.length % 4 ≠ 1
  tight : hasLooseBits values = false

/-- The characters of symbols, with the padding that completes the last group. -/
def padded (values : List Nat) : List UInt8 :=
  values.map symbol ++ List.replicate ((4 - values.length % 4) % 4) padding

/-- A text that shows symbols begins with a character of the first of them. -/
theorem symbolValue?_of_cons {byte : UInt8} {rest after : List UInt8} {value : Nat}
    {others : List Nat} (small : ∀ symbol ∈ value :: others, symbol < 64)
    (split : byte :: rest = (value :: others).map symbol ++ after) :
    symbolValue? byte = some value := by
  obtain ⟨rfl, -⟩ := List.cons_eq_cons.mp split
  exact symbolValue?_symbol (small value List.mem_cons_self)

theorem symbols_eq_ok_iff {offset : Nat} {text : List UInt8} {values : List Nat} :
    symbols offset text = .ok values ↔
      text = values.map symbol ∧ ∀ value ∈ values, value < 64 := by
  induction text generalizing offset values with
  | nil =>
      cases values <;> simp [symbols]
  | cons byte rest ih =>
      constructor
      · intro success
        rw [symbols] at success
        split at success
        · rename_i value denotes
          obtain ⟨others, othersRead, rfl⟩ := bind_pure_eq_ok_iff.mp success
          obtain ⟨rfl, small⟩ := ih.mp othersRead
          obtain ⟨shown, bound⟩ := symbol_of_symbolValue? denotes
          exact ⟨by rw [List.map_cons, shown], List.forall_mem_cons.mpr ⟨bound, small⟩⟩
        · cases success
      · rintro ⟨split, small⟩
        cases values with
        | nil => cases split
        | cons value others =>
            have denotes := symbolValue?_of_cons small (split.trans (List.append_nil _).symm)
            have success := (@ih (offset + 1) others).mpr
              ⟨(List.cons_eq_cons.mp split).2, (List.forall_mem_cons.mp small).2⟩
            simp only [symbols, denotes]
            exact bind_pure_eq_ok_iff.mpr ⟨others, success, rfl⟩

theorem eq_padding_of_cons {byte : UInt8} {rest : List UInt8} {count : Nat}
    (split : byte :: rest = List.replicate count padding) : byte = padding :=
  List.eq_of_mem_replicate (split ▸ List.mem_cons_self)

/-- After a padding character only padding may come, up to the end of the group. -/
theorem lastSymbols_padded_iff {start index offset : Nat} {text : List UInt8} {values : List Nat} :
    lastSymbols start index (some offset) text = .ok values ↔
      values = [] ∧ ∃ count, text = List.replicate count padding ∧
        ∀ position < count, 2 ≤ (index + position) % 4 := by
  induction text generalizing index offset with
  | nil =>
      constructor
      · intro success
        cases success
        exact ⟨rfl, 0, rfl, fun _ impossible => absurd impossible (Nat.not_lt_zero _)⟩
      · rintro ⟨rfl, -⟩
        rfl
  | cons byte rest ih =>
      rw [lastSymbols]
      by_cases pads : byte = padding
      · subst pads
        rw [if_pos rfl]
        by_cases early : index % 4 < 2
        · rw [if_pos early]
          constructor
          · intro failure
            cases failure
          · rintro ⟨-, count, split, late⟩
            have positive : 0 < count := by
              have := congrArg List.length split
              simp at this
              omega
            have := late 0 positive
            omega
        · rw [if_neg early, ih]
          constructor
          · rintro ⟨rfl, count, rfl, late⟩
            refine ⟨rfl, count + 1, rfl, fun position inside => ?_⟩
            cases position with
            | zero => omega
            | succ position =>
                have := late position (Nat.lt_of_succ_lt_succ inside)
                omega
          · rintro ⟨rfl, count, split, late⟩
            cases count with
            | zero => cases split
            | succ count =>
                refine ⟨rfl, count, (List.cons_eq_cons.mp split).2, fun position inside => ?_⟩
                have := late (position + 1) (Nat.succ_lt_succ inside)
                omega
      · rw [if_neg pads]
        constructor
        · intro failure
          cases failure
        · rintro ⟨-, count, split, -⟩
          exact (pads (eq_padding_of_cons split)).elim

/-- The last characters are symbols and then padding, which keeps to the second half of a group. -/
theorem lastSymbols_eq_ok_iff {start index : Nat} {text : List UInt8} {values : List Nat} :
    lastSymbols start index none text = .ok values ↔
      (∀ value ∈ values, value < 64) ∧ ∃ count,
        text = values.map symbol ++ List.replicate count padding ∧
        ∀ position < count, 2 ≤ (index + values.length + position) % 4 := by
  induction text generalizing index values with
  | nil =>
      constructor
      · intro success
        cases success
        exact ⟨by simp, 0, rfl, fun _ impossible => absurd impossible (Nat.not_lt_zero _)⟩
      · rintro ⟨-, count, split, -⟩
        cases values with
        | nil => rfl
        | cons value others => cases split
  | cons byte rest ih =>
      by_cases pads : byte = padding
      · have afterPadding : lastSymbols start index none (byte :: rest) =
            lastSymbols start index (some (start + index)) (byte :: rest) := by
          rw [lastSymbols, lastSymbols, if_pos pads, if_pos pads]
          rfl
        rw [afterPadding, lastSymbols_padded_iff]
        constructor
        · rintro ⟨rfl, count, split, late⟩
          exact ⟨by simp, count, split, late⟩
        · rintro ⟨-, count, split, late⟩
          cases values with
          | nil => exact ⟨rfl, count, split, late⟩
          | cons value others =>
              obtain ⟨rfl, -⟩ := List.cons_eq_cons.mp split
              exact ((symbol_range value).2 pads).elim
      · constructor
        · intro success
          rw [lastSymbols, if_neg pads] at success
          split at success
          · rename_i value denotes
            obtain ⟨others, othersRead, rfl⟩ := bind_pure_eq_ok_iff.mp success
            obtain ⟨small, count, rfl, late⟩ := ih.mp othersRead
            obtain ⟨shown, bound⟩ := symbol_of_symbolValue? denotes
            refine ⟨List.forall_mem_cons.mpr ⟨bound, small⟩, count,
              by rw [List.map_cons, shown, List.cons_append], fun position inside => ?_⟩
            have := late position inside
            rw [List.length_cons]
            omega
          · cases success
        · rintro ⟨small, count, split, late⟩
          cases values with
          | nil => exact (pads (eq_padding_of_cons split)).elim
          | cons value others =>
              have denotes := symbolValue?_of_cons small split
              have success := (@ih (index + 1) others).mpr ⟨(List.forall_mem_cons.mp small).2,
                count, (List.cons_eq_cons.mp split).2, fun position inside => by
                  have := late position inside
                  rw [List.length_cons] at this
                  omega⟩
              rw [lastSymbols, if_neg pads]
              simp only [denotes]
              exact bind_pure_eq_ok_iff.mpr ⟨others, success, rfl⟩

/-! ## Whole texts -/

/-- The part that is examined without regard to padding holds whole groups, so it does not matter
to the bits that are left over. -/
theorem hasLooseBits_append {first last : List Nat} (groups : first.length % 4 = 0) :
    hasLooseBits (first ++ last) = hasLooseBits last := by
  cases last with
  | nil =>
      rw [List.append_nil]
      unfold hasLooseBits
      cases first.getLast? with
      | none => rfl
      | some value => simp [groups]
  | cons value others =>
      have length : (first ++ value :: others).length % 4 = (value :: others).length % 4 := by
        rw [List.length_append]
        omega
      unfold hasLooseBits
      rw [length, List.getLast?_append, List.getLast?_cons, Option.some_or]

theorem decode_of_length {text : List UInt8} (remainder : text.length % 4 ≠ 1) :
    decode text = (do
      let first ← symbols 0 (text.take (8 * ((text.length - 1) / 8)))
      let last ← lastSymbols (8 * ((text.length - 1) / 8)) 0 none
        (text.drop (8 * ((text.length - 1) / 8)))
      if text.length % 4 ≠ 0 then .error .invalidPadding
      else if hasLooseBits last then
        .error (.invalidLastSymbol (symbol (last.getLastD 0))
          (8 * ((text.length - 1) / 8) + last.length - 1))
      else return bytesOfSymbols (first ++ last)) := by
  rw [decode]
  exact if_neg remainder

theorem length_of_decode {text bytes : List UInt8} (success : decode text = .ok bytes) :
    text.length % 4 ≠ 1 := by
  intro remainder
  rw [decode] at success
  dsimp only at success
  rw [if_pos remainder] at success
  split at success <;> cases success

theorem padded_of_decode {text bytes : List UInt8} (success : decode text = .ok bytes) :
    ∃ values, Regular values ∧ text = padded values ∧ bytes = bytesOfSymbols values := by
  rw [decode_of_length (length_of_decode success)] at success
  generalize place : 8 * ((text.length - 1) / 8) = start at success
  have inside : start ≤ text.length := by omega
  obtain ⟨first, firstRead, success⟩ := bind_eq_ok_iff.mp success
  obtain ⟨last, lastRead, success⟩ := bind_eq_ok_iff.mp success
  split at success
  · cases success
  · rename_i multiple
    split at success
    · cases success
    · rename_i tight
      cases success
      obtain ⟨firstSplit, firstSmall⟩ := symbols_eq_ok_iff.mp firstRead
      obtain ⟨lastSmall, count, lastSplit, late⟩ := lastSymbols_eq_ok_iff.mp lastRead
      have firstLength : first.length = start := by
        have := congrArg List.length firstSplit
        simp only [List.length_take, List.length_map] at this
        omega
      have lastLength := congrArg List.length lastSplit
      simp only [List.length_drop, List.length_append, List.length_map,
        List.length_replicate] at lastLength
      -- Padding stands in the second half of the group, so there are two of them at the most.
      have onePad := late 0
      have twoPads := late 1
      have threePads := late 2
      have pads : count = (4 - (first ++ last).length % 4) % 4 := by
        rw [List.length_append]
        omega
      refine ⟨first ++ last, ⟨List.forall_mem_append.mpr ⟨firstSmall, lastSmall⟩, ?_, ?_⟩, ?_, rfl⟩
      · rw [List.length_append]
        omega
      · rw [hasLooseBits_append (by omega)]
        exact Bool.eq_false_iff.mpr tight
      · rw [padded, ← pads, List.map_append, List.append_assoc, ← firstSplit, ← lastSplit,
          List.take_append_drop]

theorem decode_padded {values : List Nat} (regular : Regular values) :
    decode (padded values) = .ok (bytesOfSymbols values) := by
  have whole := regular.whole
  have total : (padded values).length = values.length + (4 - values.length % 4) % 4 := by
    rw [padded, List.length_append, List.length_map, List.length_replicate]
  rw [decode_of_length (by omega)]
  generalize place : 8 * (((padded values).length - 1) / 8) = start
  have before : start ≤ values.length := by omega
  have firstPart : (padded values).take start = (values.take start).map symbol := by
    rw [padded, List.take_append_of_le_length (by rwa [List.length_map]), List.map_take]
  have lastPart : (padded values).drop start = (values.drop start).map symbol ++
      List.replicate ((4 - values.length % 4) % 4) padding := by
    rw [padded, List.drop_append_of_le_length (by rwa [List.length_map]), List.map_drop]
  have firstRead : symbols 0 ((padded values).take start) = .ok (values.take start) :=
    symbols_eq_ok_iff.mpr ⟨firstPart, fun value member =>
      regular.small value (List.mem_of_mem_take member)⟩
  have lastRead : lastSymbols start 0 none ((padded values).drop start) =
      .ok (values.drop start) := by
    refine lastSymbols_eq_ok_iff.mpr ⟨fun value member =>
      regular.small value (List.mem_of_mem_drop member), _, lastPart, fun position early => ?_⟩
    rw [List.length_drop]
    omega
  have tight : hasLooseBits (values.drop start) = false := by
    have groups : (values.take start).length % 4 = 0 := by rw [List.length_take]; omega
    rw [← hasLooseBits_append groups, List.take_append_drop]
    exact regular.tight
  rw [firstRead, lastRead]
  simp only [bind, Except.bind]
  rw [if_neg (by omega), tight, if_neg Bool.false_ne_true, List.take_append_drop]
  rfl

theorem decode_eq_ok_iff {text bytes : List UInt8} :
    decode text = .ok bytes ↔
      ∃ values, Regular values ∧ text = padded values ∧ bytes = bytesOfSymbols values := by
  constructor
  · exact padded_of_decode
  · rintro ⟨values, regular, rfl, rfl⟩
    exact decode_padded regular

/-! ## Bytes and their symbols -/

theorem padded_group {a b c d : Nat} (rest : List Nat) :
    padded (a :: b :: c :: d :: rest) =
      symbol a :: symbol b :: symbol c :: symbol d :: padded rest := by
  have count : (4 - (a :: b :: c :: d :: rest).length % 4) % 4 = (4 - rest.length % 4) % 4 := by
    simp only [List.length_cons]
    omega
  rw [padded, count]
  rfl

theorem regular_group_iff {a b c d : Nat} {rest : List Nat} :
    Regular (a :: b :: c :: d :: rest) ↔
      (a < 64 ∧ b < 64 ∧ c < 64 ∧ d < 64) ∧ Regular rest := by
  have group : [a, b, c, d].length % 4 = 0 := by simp
  have loose : hasLooseBits (a :: b :: c :: d :: rest) = hasLooseBits rest :=
    hasLooseBits_append group
  have length : (a :: b :: c :: d :: rest).length % 4 = rest.length % 4 := by
    simp only [List.length_cons]
    omega
  constructor
  · rintro ⟨small, whole, tight⟩
    simp only [List.forall_mem_cons] at small
    exact ⟨⟨small.1, small.2.1, small.2.2.1, small.2.2.2.1⟩, small.2.2.2.2, by rwa [← length],
      by rwa [← loose]⟩
  · rintro ⟨⟨aSmall, bSmall, cSmall, dSmall⟩, small, whole, tight⟩
    refine ⟨?_, by rwa [length], by rwa [loose]⟩
    simp only [List.forall_mem_cons]
    exact ⟨aSmall, bSmall, cSmall, dSmall, small⟩

/-- No bytes are left over of the symbols of whole bytes. -/
theorem Regular.eq_nil {values : List Nat} (regular : Regular values)
    (group : ∀ a b c d rest, values ≠ a :: b :: c :: d :: rest)
    (three : ∀ a b c, values ≠ [a, b, c]) (two : ∀ a b, values ≠ [a, b]) : values = [] := by
  match values, regular, group, three, two with
  | [], _, _, _, _ => rfl
  | [_], regular, _, _, _ => exact (regular.whole rfl).elim
  | [a, b], _, _, _, two => exact (two a b rfl).elim
  | [a, b, c], _, _, three, _ => exact (three a b c rfl).elim
  | a :: b :: c :: d :: rest, _, group, _, _ => exact (group a b c d rest rfl).elim

theorem encode_bytesOfSymbols {values : List Nat} (regular : Regular values) :
    encode (bytesOfSymbols values) = padded values ∧
      (bytesOfSymbols values).length = values.length * 3 / 4 := by
  induction values using bytesOfSymbols.induct with
  | case1 a b c d rest ih =>
      obtain ⟨⟨aSmall, bSmall, cSmall, dSmall⟩, regularRest⟩ := regular_group_iff.mp regular
      obtain ⟨shown, length⟩ := ih regularRest
      have firstSymbol : (a * 4 + b / 16) / 4 = a := by omega
      have secondSymbol : (a * 4 + b / 16) % 4 * 16 + (b % 16 * 16 + c / 4) / 16 = b := by omega
      have thirdSymbol : (b % 16 * 16 + c / 4) % 16 * 4 + (c % 4 * 64 + d) / 64 = c := by omega
      have fourthSymbol : (c % 4 * 64 + d) % 64 = d := by omega
      constructor
      · rw [bytesOfSymbols, encode, padded_group, shown, toNat_ofNat_of_lt (by omega),
          toNat_ofNat_of_lt (by omega), toNat_ofNat_of_lt (by omega), firstSymbol, secondSymbol,
          thirdSymbol, fourthSymbol]
      · simp only [bytesOfSymbols, List.length_cons, length]
        omega
  | case2 a b c =>
      have small := regular.small
      have tight : c % 4 = 0 := by simpa [hasLooseBits] using regular.tight
      simp only [List.forall_mem_cons] at small
      have firstSymbol : (a * 4 + b / 16) / 4 = a := by omega
      have secondSymbol : (a * 4 + b / 16) % 4 * 16 + (b % 16 * 16 + c / 4) / 16 = b := by omega
      have thirdSymbol : (b % 16 * 16 + c / 4) % 16 * 4 = c := by omega
      constructor
      · rw [bytesOfSymbols, encode, toNat_ofNat_of_lt (by omega), toNat_ofNat_of_lt (by omega),
          firstSymbol, secondSymbol, thirdSymbol]
        rfl
      · simp [bytesOfSymbols]
  | case3 a b =>
      have small := regular.small
      have tight : b % 16 = 0 := by simpa [hasLooseBits] using regular.tight
      simp only [List.forall_mem_cons] at small
      have firstSymbol : (a * 4 + b / 16) / 4 = a := by omega
      have secondSymbol : (a * 4 + b / 16) % 4 * 16 = b := by omega
      constructor
      · rw [bytesOfSymbols, encode, toNat_ofNat_of_lt (by omega), firstSymbol, secondSymbol]
        rfl
      · simp [bytesOfSymbols]
  | case4 values group three two =>
      obtain rfl := regular.eq_nil group three two
      exact ⟨rfl, rfl⟩

theorem exists_regular (bytes : List UInt8) :
    ∃ values, Regular values ∧ encode bytes = padded values ∧ bytesOfSymbols values = bytes := by
  induction bytes using encode.induct with
  | case1 a b c rest ih =>
      obtain ⟨values, regular, shown, denoted⟩ := ih
      have aBound := a.toNat_lt
      have bBound := b.toNat_lt
      have cBound := c.toNat_lt
      refine ⟨a.toNat / 4 :: (a.toNat % 4 * 16 + b.toNat / 16) ::
        (b.toNat % 16 * 4 + c.toNat / 64) :: (c.toNat % 64) :: values,
        regular_group_iff.mpr ⟨by omega, regular⟩, ?_, ?_⟩
      · rw [encode, padded_group, shown]
      · rw [bytesOfSymbols, denoted]
        refine cons_ofNat_eq ?_ (cons_ofNat_eq ?_ (cons_ofNat_eq ?_ rfl)) <;> omega
  | case2 a b =>
      have aBound := a.toNat_lt
      have bBound := b.toNat_lt
      refine ⟨[a.toNat / 4, a.toNat % 4 * 16 + b.toNat / 16, b.toNat % 16 * 4],
        ⟨?_, ?_, ?_⟩, rfl, ?_⟩
      · simp only [List.forall_mem_cons]
        exact ⟨by omega, by omega, by omega, by simp⟩
      · simp
      · simp [hasLooseBits]
      · rw [bytesOfSymbols]
        refine cons_ofNat_eq ?_ (cons_ofNat_eq ?_ rfl) <;> omega
  | case3 a =>
      have aBound := a.toNat_lt
      refine ⟨[a.toNat / 4, a.toNat % 4 * 16], ⟨?_, ?_, ?_⟩, rfl, ?_⟩
      · simp only [List.forall_mem_cons]
        exact ⟨by omega, by omega, by simp⟩
      · simp
      · simp [hasLooseBits]
      · rw [bytesOfSymbols]
        exact cons_ofNat_eq (by omega) rfl
  | case4 => exact ⟨[], ⟨by simp, by simp, rfl⟩, rfl, rfl⟩

end SchemaWire.Wire.Base64
