import SchemaWire.Power
import SchemaWire.Proofs.Wire.Base64

/-!
# What is relied on of a base64 engine

The standard alphabet with required padding, told by bits: the letters of a text are six bits each,
and together they are the bits of the bytes, filled up with zeros. An engine accepts these texts
alone, and a refusal that names a character names one of the text. All engines of this kind write
the same texts and take them for the same bytes. They may only differ in why they refuse a text.
-/

set_option autoImplicit false

namespace SchemaWire.Wire.Base64

open Outcome
open Utf8 (toNat_ofNat_of_lt)

/-- The bits of a number, the highest first. -/
def bits (width value : Nat) : List Bool :=
  (List.range width).map fun place => value.testBit (width - 1 - place)

def alphabet : List UInt8 :=
  Utf8.encode "ABCDEFGHIJKLMNOPQRSTUVWXYZabcdefghijklmnopqrstuvwxyz0123456789+/".toList

def letterBits (letter : UInt8) : List Bool :=
  bits 6 (alphabet.idxOf letter)

def byteBits (byte : UInt8) : List Bool :=
  bits 8 byte.toNat

/-- The text is letters with the bits of the bytes, and then padding up to a multiple of four
characters. Zeros that fill up the last letter are fewer than its bits. -/
def Shows (text bytes : List UInt8) : Prop :=
  ∃ letters fill pads,
    (∀ letter ∈ letters, letter ∈ alphabet) ∧
      letters.flatMap letterBits = bytes.flatMap byteBits ++ List.replicate fill false ∧ fill < 6 ∧
      text = letters ++ List.replicate pads padding ∧ pads < 4 ∧ text.length % 4 = 0

/-- A refusal that names a character names one of the text: no letter, or at the end a letter with
bits that belong to no byte. -/
def Fault.Located (text : List UInt8) : Fault → Prop
  | .invalidByte byte offset => text[offset]? = some byte ∧ byte ∉ alphabet
  | .invalidLastSymbol byte offset => text[offset]? = some byte ∧ byte ∈ alphabet
  | .sixBitRemainder | .invalidPadding => True

/-- What is relied on of an engine: how it writes bytes, that it accepts what shows bytes and nothing
else, and what a refusal names. -/
structure Standard (encoder : List UInt8 → List UInt8)
    (decoder : List UInt8 → Except Fault (List UInt8)) : Prop where
  shows_encoder (bytes : List UInt8) : Shows (encoder bytes) bytes
  decoder_eq_ok_iff (text bytes : List UInt8) : decoder text = .ok bytes ↔ Shows text bytes
  located (text : List UInt8) (fault : Fault) : decoder text = .error fault → fault.Located text

/-! ## Letters -/

theorem alphabet_eq : alphabet = (List.range 64).map symbol := by
  decide +kernel

theorem idxOf_symbol {value : Nat} (small : value < 64) :
    symbol value ∈ alphabet ∧ alphabet.idxOf (symbol value) = value := by
  have distinct : alphabet.Nodup := by
    rw [alphabet_eq]
    refine List.pairwise_map.mpr (List.nodup_range.imp_of_mem ?_)
    intro left right leftInside rightInside distinct same
    have values := congrArg symbolValue? same
    rw [symbolValue?_symbol (List.mem_range.mp leftInside),
      symbolValue?_symbol (List.mem_range.mp rightInside)] at values
    exact distinct (Option.some.inj values)
  have inside : value < alphabet.length := by rwa [alphabet_eq, List.length_map, List.length_range]
  have shown : alphabet[value] = symbol value := by simp [alphabet_eq]
  exact shown ▸ ⟨List.getElem_mem inside, distinct.idxOf_getElem value inside⟩

theorem symbol_idxOf {letter : UInt8} (member : letter ∈ alphabet) :
    symbol (alphabet.idxOf letter) = letter ∧ alphabet.idxOf letter < 64 := by
  rw [alphabet_eq] at member
  obtain ⟨value, inside, rfl⟩ := List.mem_map.mp member
  rw [(idxOf_symbol (List.mem_range.mp inside)).2]
  exact ⟨rfl, List.mem_range.mp inside⟩

theorem symbolValue?_eq_none_iff {byte : UInt8} :
    symbolValue? byte = none ↔ byte ∉ alphabet := by
  constructor
  · intro unknown member
    obtain ⟨same, small⟩ := symbol_idxOf member
    rw [← same, symbolValue?_symbol small] at unknown
    cases unknown
  · intro foreign
    cases denotes : symbolValue? byte with
    | none => rfl
    | some value =>
        obtain ⟨rfl, small⟩ := symbol_of_symbolValue? denotes
        exact (foreign (idxOf_symbol small).1).elim

/-! ## Bits -/

@[simp] theorem length_bits (width value : Nat) : (bits width value).length = width := by
  simp [bits]

theorem bits_zero (width : Nat) : bits width 0 = List.replicate width false := by
  simp [bits, List.map_const']

/-- The bits of a number and those of a lower part behind them. -/
theorem bits_join (width count : Nat) {high low : Nat} (small : low < 2 ^ count) :
    bits (width + count) (high * 2 ^ count + low) = bits width high ++ bits count low := by
  have upper : (high * 2 ^ count + low) / 2 ^ count = high := by
    rw [Nat.mul_comm, Nat.mul_add_div (Nat.two_pow_pos count), Nat.div_eq_of_lt small, Nat.add_zero]
  have lower : (high * 2 ^ count + low) % 2 ^ count = low := by
    rw [Nat.mul_comm, Nat.mul_add_mod, Nat.mod_eq_of_lt small]
  generalize high * 2 ^ count + low = value at upper lower
  subst upper lower
  have first : (List.range width).map (fun place => value.testBit (width + count - 1 - place)) =
      bits width (value / 2 ^ count) := by
    refine List.map_congr_left fun place inside => ?_
    have bound := List.mem_range.mp inside
    rw [Nat.testBit_div_two_pow]
    congr 1
    omega
  have last : (List.range count).map (fun place =>
      value.testBit (width + count - 1 - (width + place))) = bits count (value % 2 ^ count) := by
    refine List.map_congr_left fun place inside => ?_
    have bound := List.mem_range.mp inside
    have lowest : width + count - 1 - (width + place) = count - 1 - place := by omega
    rw [Nat.testBit_mod_two_pow, lowest, decide_eq_true (by omega), Bool.true_and]
  rw [← first, ← last, bits, List.range_add, List.map_append, List.map_map]
  rfl

theorem bits_inj {width left right : Nat} (leftSmall : left < 2 ^ width)
    (rightSmall : right < 2 ^ width) (same : bits width left = bits width right) :
    left = right := by
  refine Nat.eq_of_testBit_eq fun place => ?_
  by_cases inside : place < width
  · have digit := List.map_inj_left.mp same (width - 1 - place) (List.mem_range.mpr (by omega))
    rwa [show width - 1 - (width - 1 - place) = place by omega] at digit
  · have large : 2 ^ width ≤ 2 ^ place := Nat.pow_le_pow_right (by decide) (by omega)
    rw [Nat.testBit_lt_two_pow (Nat.lt_of_lt_of_le leftSmall large),
      Nat.testBit_lt_two_pow (Nat.lt_of_lt_of_le rightSmall large)]

/-- The first two bits of a letter and the others. -/
theorem bits_two_four (value : Nat) : bits 6 value = bits 2 (value / 16) ++ bits 4 (value % 16) := by
  have joined : bits 6 (value / 16 * 16 + value % 16) = bits 2 (value / 16) ++ bits 4 (value % 16) :=
    bits_join 2 4 (Nat.mod_lt value (by decide))
  rwa [Nat.div_add_mod'] at joined

/-- The first four bits of a letter and the others. -/
theorem bits_four_two (value : Nat) : bits 6 value = bits 4 (value / 4) ++ bits 2 (value % 4) := by
  have joined : bits 6 (value / 4 * 4 + value % 4) = bits 4 (value / 4) ++ bits 2 (value % 4) :=
    bits_join 4 2 (Nat.mod_lt value (by decide))
  rwa [Nat.div_add_mod'] at joined

/-- A byte of a letter and the first bits of the next. -/
theorem bits_first {a b : Nat} (aSmall : a < 64) (bSmall : b < 64) :
    byteBits (UInt8.ofNat (a * 4 + b / 16)) = bits 6 a ++ bits 2 (b / 16) := by
  rw [byteBits, toNat_ofNat_of_lt (by omega)]
  exact bits_join 6 2 (by omega)

/-- A byte of the last bits of a letter and the first ones of the next. -/
theorem bits_second (b : Nat) {c : Nat} (cSmall : c < 64) :
    byteBits (UInt8.ofNat (b % 16 * 16 + c / 4)) = bits 4 (b % 16) ++ bits 4 (c / 4) := by
  rw [byteBits, toNat_ofNat_of_lt (by omega)]
  exact bits_join 4 4 (by omega)

/-- A byte of the last bits of a letter and the next. -/
theorem bits_third (c : Nat) {d : Nat} (dSmall : d < 64) :
    byteBits (UInt8.ofNat (c % 4 * 64 + d)) = bits 2 (c % 4) ++ bits 6 d := by
  rw [byteBits, toNat_ofNat_of_lt (by omega)]
  exact bits_join 2 6 dSmall

/-- The letters of whole bytes have the bits of these, and zeros. -/
theorem bits_bytesOfSymbols {values : List Nat} (regular : Regular values) :
    ∃ fill < 6, values.flatMap (bits 6) =
      (bytesOfSymbols values).flatMap byteBits ++ List.replicate fill false := by
  induction values using bytesOfSymbols.induct with
  | case1 a b c d rest ih =>
      obtain ⟨⟨aSmall, bSmall, cSmall, dSmall⟩, regularRest⟩ := regular_group_iff.mp regular
      obtain ⟨fill, few, same⟩ := ih regularRest
      refine ⟨fill, few, ?_⟩
      simp only [bytesOfSymbols, List.flatMap_cons, same, bits_first aSmall bSmall,
        bits_second b cSmall, bits_third c dSmall, bits_two_four b, bits_four_two c,
        List.append_assoc]
  | case2 a b c =>
      have small := regular.small
      have tight : c % 4 = 0 := by simpa [hasLooseBits] using regular.tight
      simp only [List.forall_mem_cons] at small
      obtain ⟨aSmall, bSmall, cSmall, -⟩ := small
      refine ⟨2, by decide, ?_⟩
      simp only [bytesOfSymbols, List.flatMap_cons, List.flatMap_nil, bits_first aSmall bSmall,
        bits_second b cSmall, bits_two_four b, bits_four_two c, tight, bits_zero,
        List.append_assoc, List.append_nil]
  | case3 a b =>
      have small := regular.small
      have tight : b % 16 = 0 := by simpa [hasLooseBits] using regular.tight
      simp only [List.forall_mem_cons] at small
      obtain ⟨aSmall, bSmall, -⟩ := small
      refine ⟨4, by decide, ?_⟩
      simp only [bytesOfSymbols, List.flatMap_cons, List.flatMap_nil, bits_first aSmall bSmall,
        bits_two_four b, tight, bits_zero, List.append_assoc, List.append_nil]
  | case4 values group three two =>
      obtain rfl := regular.eq_nil group three two
      exact ⟨0, by decide, rfl⟩

/-! ## Texts -/

theorem length_lettersBits (letters : List UInt8) :
    (letters.flatMap letterBits).length = letters.length * 6 := by
  induction letters with
  | nil => rfl
  | cons letter rest ih =>
      rw [List.flatMap_cons, List.length_append, ih, letterBits, length_bits, List.length_cons]
      omega

theorem letters_of_bits {left right : List UInt8} (leftLetters : ∀ letter ∈ left, letter ∈ alphabet)
    (rightLetters : ∀ letter ∈ right, letter ∈ alphabet)
    (same : left.flatMap letterBits = right.flatMap letterBits) : left = right := by
  have lengths := congrArg List.length same
  rw [length_lettersBits, length_lettersBits] at lengths
  induction left generalizing right with
  | nil =>
      cases right with
      | nil => rfl
      | cons letter rest => simp at lengths
  | cons letter rest ih =>
      cases right with
      | nil => simp at lengths
      | cons other others =>
          rw [List.length_cons, List.length_cons] at lengths
          rw [List.flatMap_cons, List.flatMap_cons] at same
          obtain ⟨first, later⟩ := List.append_inj same
            (by rw [letterBits, letterBits, length_bits, length_bits])
          obtain ⟨member, restLetters⟩ := List.forall_mem_cons.mp leftLetters
          obtain ⟨otherMember, othersLetters⟩ := List.forall_mem_cons.mp rightLetters
          obtain ⟨shown, small⟩ := symbol_idxOf member
          obtain ⟨otherShown, otherSmall⟩ := symbol_idxOf otherMember
          rw [ih restLetters othersLetters later (by omega), ← shown, ← otherShown,
            bits_inj small otherSmall first]

/-- Bytes are shown by one text only. -/
theorem Shows.unique {text other bytes : List UInt8} (shows : Shows text bytes)
    (otherShows : Shows other bytes) : text = other := by
  obtain ⟨letters, fill, pads, members, same, few, rfl, short, whole⟩ := shows
  obtain ⟨others, otherFill, otherPads, otherMembers, otherSame, otherFew, rfl, otherShort,
    otherWhole⟩ := otherShows
  have lengths := congrArg List.length same
  have otherLengths := congrArg List.length otherSame
  rw [length_lettersBits, List.length_append, List.length_replicate] at lengths otherLengths
  obtain rfl : fill = otherFill := by omega
  obtain rfl := letters_of_bits members otherMembers (same.trans otherSame.symm)
  rw [List.length_append, List.length_replicate] at whole otherWhole
  obtain rfl : pads = otherPads := by omega
  rfl

theorem shows_encode (bytes : List UInt8) : Shows (encode bytes) bytes := by
  obtain ⟨values, regular, shown, rfl⟩ := exists_regular bytes
  obtain ⟨fill, few, same⟩ := bits_bytesOfSymbols regular
  refine ⟨values.map symbol, fill, (4 - values.length % 4) % 4, ?members, ?bits, few, shown,
    by omega, ?whole⟩
  case members =>
    intro letter member
    obtain ⟨value, inside, rfl⟩ := List.mem_map.mp member
    exact (idxOf_symbol (regular.small value inside)).1
  case bits =>
    rw [← same, List.flatMap_map]
    refine congrArg List.flatten (List.map_congr_left fun value inside => ?_)
    rw [letterBits, (idxOf_symbol (regular.small value inside)).2]
  case whole =>
    rw [shown, padded, List.length_append, List.length_map, List.length_replicate]
    omega

theorem decode_eq_ok_iff_shows {text bytes : List UInt8} :
    decode text = .ok bytes ↔ Shows text bytes := by
  constructor
  · intro success
    obtain ⟨values, regular, rfl, rfl⟩ := decode_eq_ok_iff.mp success
    exact (encode_bytesOfSymbols regular).1 ▸ shows_encode _
  · intro shows
    obtain ⟨values, regular, shown, denoted⟩ := exists_regular bytes
    exact decode_eq_ok_iff.mpr
      ⟨values, regular, (shows.unique (shows_encode bytes)).trans shown, denoted.symm⟩

/-! ## Refusals -/

theorem symbols_eq_error {offset : Nat} {text : List UInt8} {fault : Fault}
    (refused : symbols offset text = .error fault) :
    ∃ place byte, fault = .invalidByte byte (offset + place) ∧ text[place]? = some byte ∧
      byte ∉ alphabet := by
  induction text generalizing offset with
  | nil => cases refused
  | cons byte rest ih =>
      rw [symbols] at refused
      split at refused
      · rcases bind_eq_error_iff.mp refused with failed | ⟨_, _, impossible⟩
        · obtain ⟨place, found, rfl, stands, foreign⟩ := ih failed
          exact ⟨place + 1, found, by rw [Nat.add_assoc, Nat.add_comm 1], stands, foreign⟩
        · cases impossible
      · rename_i unknown
        cases refused
        exact ⟨0, byte, rfl, rfl, symbolValue?_eq_none_iff.mp unknown⟩

theorem padding_not_mem_alphabet : padding ∉ alphabet :=
  symbolValue?_eq_none_iff.mp rfl

/-- The character that is refused stands in the text, or it is the padding that was seen first. -/
theorem lastSymbols_eq_error {start index : Nat} {firstPadding? : Option Nat} {text : List UInt8}
    {fault : Fault} (refused : lastSymbols start index firstPadding? text = .error fault) :
    ∃ byte offset, fault = .invalidByte byte offset ∧ byte ∉ alphabet ∧
      (firstPadding? = some offset ∧ byte = padding ∨
        ∃ place, offset = start + index + place ∧ text[place]? = some byte) := by
  induction text generalizing index firstPadding? with
  | nil => cases refused
  | cons byte rest ih =>
      unfold lastSymbols at refused
      split at refused
      · rename_i pads
        subst pads
        -- The padding that was seen first is the one before, or this one.
        have seen : ∀ {offset}, firstPadding?.getD (start + index) = offset →
            firstPadding? = some offset ∧ padding = padding ∨
              ∃ place, offset = start + index + place ∧ (padding :: rest)[place]? = some padding := by
          rintro _ rfl
          cases firstPadding? with
          | none => exact .inr ⟨0, rfl, rfl⟩
          | some offset => exact .inl ⟨rfl, rfl⟩
        split at refused
        · cases refused
          exact ⟨padding, _, rfl, padding_not_mem_alphabet, seen rfl⟩
        · obtain ⟨found, offset, rfl, foreign, ⟨first, rfl⟩ | ⟨place, rfl, stands⟩⟩ := ih refused
          · exact ⟨padding, offset, rfl, foreign, seen (Option.some.inj first)⟩
          · exact ⟨found, _, rfl, foreign, .inr ⟨place + 1, by omega, stands⟩⟩
      · split at refused
        · cases refused
          exact ⟨padding, _, rfl, padding_not_mem_alphabet, .inl ⟨rfl, rfl⟩⟩
        · split at refused
          · rcases bind_eq_error_iff.mp refused with failed | ⟨_, _, impossible⟩
            · obtain ⟨found, offset, rfl, foreign, ⟨first, -⟩ | ⟨place, rfl, stands⟩⟩ := ih failed
              · cases first
              · exact ⟨found, _, rfl, foreign, .inr ⟨place + 1, by omega, stands⟩⟩
            · cases impossible
          · rename_i unknown
            cases refused
            exact ⟨byte, _, rfl, symbolValue?_eq_none_iff.mp unknown, .inr ⟨0, rfl, rfl⟩⟩

theorem located_of_decode {text : List UInt8} {fault : Fault}
    (refused : decode text = .error fault) : fault.Located text := by
  by_cases remainder : text.length % 4 = 1
  · rw [decode] at refused
    dsimp only at refused
    rw [if_pos remainder] at refused
    split at refused
    · rename_i foreign
      cases refused
      rcases List.eq_nil_or_concat text with rfl | ⟨before, last, rfl⟩
      · cases remainder
      · rw [List.concat_eq_append, List.getLastD_concat] at foreign ⊢
        refine ⟨?_, symbolValue?_eq_none_iff.mp (Option.isNone_iff_eq_none.mp foreign.2)⟩
        rw [List.length_append, List.length_singleton, Nat.add_sub_cancel,
          List.getElem?_concat_length]
    · cases refused
      trivial
  · rw [decode_of_length remainder] at refused
    generalize place : 8 * ((text.length - 1) / 8) = start at refused
    have inside : start ≤ text.length := by omega
    rcases bind_eq_error_iff.mp refused with failed | ⟨first, firstRead, refused⟩
    · obtain ⟨offset, byte, rfl, stands, foreign⟩ := symbols_eq_error failed
      rw [List.getElem?_take] at stands
      split at stands
      · exact ⟨by rwa [Nat.zero_add], foreign⟩
      · cases stands
    · rcases bind_eq_error_iff.mp refused with failed | ⟨last, lastRead, refused⟩
      · obtain ⟨byte, offset, rfl, foreign, ⟨impossible, -⟩ | ⟨after, rfl, stands⟩⟩ :=
          lastSymbols_eq_error failed
        · cases impossible
        · rw [List.getElem?_drop] at stands
          exact ⟨stands, foreign⟩
      · split at refused
        · cases refused
          trivial
        · split at refused
          · rename_i loose
            cases refused
            obtain ⟨small, count, shown, -⟩ := lastSymbols_eq_ok_iff.mp lastRead
            rcases List.eq_nil_or_concat last with rfl | ⟨others, value, rfl⟩
            · cases loose
            · rw [List.concat_eq_append] at small shown ⊢
              rw [List.getLastD_concat, List.length_append, List.length_singleton]
              refine ⟨?_, (idxOf_symbol (small value (by simp))).1⟩
              have stands := congrArg (fun (rest : List UInt8) => rest[others.length]?) shown
              simpa [List.getElem?_drop] using stands
          · cases refused

/-- The functions here are what is relied on. -/
theorem standard : Standard encode decode where
  shows_encoder := shows_encode
  decoder_eq_ok_iff _ _ := decode_eq_ok_iff_shows
  located _ _ := located_of_decode

/-- Another engine that can be relied on writes the same texts, and accepts them for the same bytes. -/
theorem Standard.alike {encoder : List UInt8 → List UInt8}
    {decoder : List UInt8 → Except Fault (List UInt8)} (standard : Standard encoder decoder) :
    encoder = encode ∧ ∀ text bytes, decoder text = .ok bytes ↔ decode text = .ok bytes := by
  constructor
  · funext bytes
    exact (standard.shows_encoder bytes).unique (shows_encode bytes)
  · intro text bytes
    rw [standard.decoder_eq_ok_iff, decode_eq_ok_iff_shows]

end SchemaWire.Wire.Base64
