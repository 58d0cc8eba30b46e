import SchemaWire.Proofs.Codec.Steps
import SchemaWire.Proofs.Wire.BigEndian
import SchemaWire.Proofs.Wire.Varint
import SchemaWire.Proofs.Wire.Writing

/-!
# Measured sizes

What is measured is the number of bytes that are written. Without the guard measuring also leaves
out parts whose size is known beforehand, and this size is theirs.
-/

set_option autoImplicit false

namespace SchemaWire.Codec

open Outcome
open Schema (AliasTable Definition Layout Plan)

/-- Measuring agrees with a number of bytes: it finds no other number, and without the guard it
finds this one. -/
structure Agrees {ε : Type} (options : Options) (measured : Except ε Nat) (length : Nat) :
    Prop where
  unique : ∀ size, measured = .ok size → size = length
  found : options.validate = false → measured = .ok length

namespace Agrees

variable {ε δ : Type} {options : Options} {length others : Nat}

theorem ok (length : Nat) : Agrees options (.ok length : Except ε Nat) length where
  unique size same := by
    cases same
    rfl
  found _ := rfl

theorem after {measured : Except ε Nat} (agrees : Agrees options measured length)
    (known : Nat) : Agrees options (do let size ← measured; return known + size) (known + length)
    where
  unique size success := by
    obtain ⟨found, measured, rfl⟩ := bind_pure_eq_ok_iff.mp success
    rw [agrees.unique found measured]
  found lax := by
    rw [agrees.found lax]
    rfl

theorem add {first second : Except ε Nat} (left : Agrees options first length)
    (right : Agrees options second others) :
    Agrees options (do let size ← first; let rest ← second; return size + rest)
      (length + others) where
  unique size success := by
    obtain ⟨leftSize, leftFound, success⟩ := bind_eq_ok_iff.mp success
    obtain ⟨rightSize, rightFound, rfl⟩ := bind_pure_eq_ok_iff.mp success
    rw [left.unique leftSize leftFound, right.unique rightSize rightFound]
  found lax := by
    rw [left.found lax, right.found lax]
    rfl

theorem mapError {measured : Except ε Nat} (agrees : Agrees options measured length)
    (rename : ε → δ) : Agrees options (measured.mapError rename) length where
  unique size success := agrees.unique size (mapError_eq_ok_iff.mp success)
  found lax := mapError_eq_ok_iff.mpr (agrees.found lax)

end Agrees

/-! ## Leaves -/

/-- The guard comes before a measurement that is the same without it. -/
theorem measureLeaf_eq_ok {options : Options} {type : Primitive} {value : Value} {size : Nat}
    (success : measureLeaf options type value = .ok size) :
    measureLeaf ⟨options.encoding, false⟩ type value = .ok size := by
  obtain ⟨encoding, validate⟩ := options
  cases validate with
  | false => exact success
  | true =>
      obtain ⟨checked, -, measured⟩ := bind_eq_ok_iff.mp success
      exact measured

theorem measureLeaf_lax {encoding : TextEncoding} {type : Primitive} {value : Value}
    {bytes : List UInt8} (written : writeLeaf encoding type value = .ok bytes) :
    measureLeaf ⟨encoding, false⟩ type value = .ok bytes.length := by
  cases type with
  | boolean =>
      obtain ⟨truth, -, rfl⟩ := bind_pure_eq_ok_iff.mp written
      rfl
  | int8 | uint8 | int16 | uint16 | int32 | uint32 =>
      obtain ⟨number, -, rfl⟩ := bind_pure_eq_ok_iff.mp written
      rw [Wire.length_bigEndian]
      rfl
  | float32 | float64 =>
      obtain ⟨number, -, rfl⟩ := bind_pure_eq_ok_iff.mp written
      rw [Wire.length_bigEndian]
      rfl
  | varuint | varint =>
      obtain ⟨number, coerced, rfl⟩ := bind_pure_eq_ok_iff.mp written
      simp only [measureLeaf, coerced, Wire.varintBytes, Wire.length_varuintBytes]
      rfl
  | string =>
      obtain ⟨text, coerced, written⟩ := bind_eq_ok_iff.mp written
      have announced := Wire.textLength_eq (mapError_eq_ok_iff.mp written)
      simp only [measureLeaf, coerced]
      exact mapError_eq_ok_iff.mpr announced
  | buffer =>
      obtain ⟨payload, coerced, rfl⟩ := bind_pure_eq_ok_iff.mp written
      simp only [measureLeaf, coerced, Wire.prefixed, Wire.length_varuintBytes, List.length_append]
      rfl

theorem agrees_measureLeaf {options : Options} {type : Primitive} {value : Value}
    {bytes : List UInt8} (written : writeLeaf options.encoding type value = .ok bytes) :
    Agrees options (measureLeaf options type value) bytes.length where
  unique size measured := by
    have lax := measureLeaf_lax written
    rw [measureLeaf_eq_ok measured] at lax
    cases lax
    rfl
  found lax := by
    rw [← measureLeaf_lax written, ← lax]

theorem length_writeLeaf {encoding : TextEncoding} {type : Primitive} {width : Nat}
    (fixed : type.width? = some width) {value : Value} {bytes : List UInt8}
    (written : writeLeaf encoding type value = .ok bytes) : bytes.length = width := by
  have measured := measureLeaf_lax written
  rw [measureLeaf_of_width rfl fixed] at measured
  cases measured
  rfl

/-! ## Fixed widths -/

theorem length_writeFields_of_width {encoding : TextEncoding} {fields : List (String × Layout)}
    (each : ∀ field ∈ fields, ∀ {path : Path} {value : Value} {width : Nat} {bytes : List UInt8},
      layoutWidth? field.2 = some width →
        writeLayout encoding path true value field.2 = .ok bytes → bytes.length = width)
    {path : Path} {entries : List (String × Value)} {width : Nat} {bytes : List UInt8}
    (fixed : fieldsWidth? fields = some width)
    (written : writeFields encoding path entries fields = .ok bytes) : bytes.length = width := by
  induction fields generalizing width bytes with
  | nil =>
      cases fixed
      cases written
      rfl
  | cons field rest ih =>
      obtain ⟨first, firstFixed, fixed⟩ := Option.bind_eq_some_iff.mp fixed
      obtain ⟨others, othersFixed, same⟩ := Option.bind_eq_some_iff.mp fixed
      cases same
      obtain ⟨value, -, written⟩ := bind_eq_ok_iff.mp written
      obtain ⟨firstBytes, firstWritten, written⟩ := bind_eq_ok_iff.mp written
      obtain ⟨otherBytes, othersWritten, rfl⟩ := bind_pure_eq_ok_iff.mp written
      have eachOther := fun other member => @each other (List.mem_cons_of_mem _ member)
      rw [List.length_append, each field List.mem_cons_self firstFixed firstWritten,
        ih eachOther othersFixed othersWritten]

theorem length_writeLayout_of_width {encoding : TextEncoding} (layout : Layout) :
    ∀ {path : Path} {counted : Bool} {value : Value} {width : Nat} {bytes : List UInt8},
      layoutWidth? layout = some width →
        writeLayout encoding path counted value layout = .ok bytes → bytes.length = width := by
  induction layout with
  | leaf type =>
      intro path counted value width bytes fixed written
      exact length_writeLeaf fixed (mapError_eq_ok_iff.mp written)
  | mapping fields ih =>
      intro path counted value width bytes fixed written
      cases value with
      | mapping entries =>
          exact length_writeFields_of_width (fun field member => ih field member) fixed written
      | boolean | integer | float | text | bytes | sequence => cases written
  | sequence heads tail headsIh tailIh =>
      intro path counted value width bytes fixed written
      cases fixed

theorem length_writeItems {write : Path → Value → Except EncodeError (List UInt8)} {width : Nat}
    (each : ∀ (path : Path) (item : Value) (bytes : List UInt8),
      write path item = .ok bytes → bytes.length = width)
    {path : Path} {index : Nat} {items : List Value} {bytes : List UInt8}
    (written : writeItems write path index items = .ok bytes) :
    bytes.length = width * items.length := by
  induction items generalizing index bytes with
  | nil =>
      cases written
      rfl
  | cons item rest ih =>
      obtain ⟨first, firstWritten, written⟩ := bind_eq_ok_iff.mp written
      obtain ⟨others, othersWritten, rfl⟩ := bind_pure_eq_ok_iff.mp written
      rw [List.length_append, each _ _ _ firstWritten, ih othersWritten, List.length_cons,
        Nat.mul_succ, Nat.add_comm]

/-! ## Layouts -/

theorem length_countBytes (counted : Bool) (count : Nat) :
    (countBytes counted count).length = countLength counted count := by
  cases counted with
  | false => rfl
  | true => exact Wire.length_varuintBytes _

theorem agrees_sumOfItems {options : Options}
    {write : Path → Value → Except EncodeError (List UInt8)}
    {measure : Path → Value → Except EncodeError Nat}
    (each : ∀ (path : Path) (item : Value) (bytes : List UInt8),
      write path item = .ok bytes → Agrees options (measure path item) bytes.length)
    {path : Path} {index : Nat} {items : List Value} {bytes : List UInt8}
    (written : writeItems write path index items = .ok bytes) :
    Agrees options (sumOfItems measure path index items) bytes.length := by
  induction items generalizing index bytes with
  | nil =>
      cases written
      exact .ok 0
  | cons item rest ih =>
      obtain ⟨first, firstWritten, written⟩ := bind_eq_ok_iff.mp written
      obtain ⟨others, othersWritten, rfl⟩ := bind_pure_eq_ok_iff.mp written
      rw [List.length_append]
      exact (each _ _ _ firstWritten).add (ih othersWritten)

/-- Elements of one width are as long together as their number says. -/
theorem agrees_measureRepeated {options : Options} (width? : Option Nat)
    {write : Path → Value → Except EncodeError (List UInt8)}
    {measure : Path → Value → Except EncodeError Nat}
    (fixed : ∀ {width : Nat}, width? = some width → ∀ (path : Path) (item : Value)
      (bytes : List UInt8), write path item = .ok bytes → bytes.length = width)
    (each : ∀ (path : Path) (item : Value) (bytes : List UInt8),
      write path item = .ok bytes → Agrees options (measure path item) bytes.length)
    {path : Path} {index : Nat} {items : List Value} {bytes : List UInt8}
    (written : writeItems write path index items = .ok bytes) :
    Agrees options (measureRepeated options width? measure path index items) bytes.length := by
  unfold measureRepeated
  split
  · rw [length_writeItems (fixed rfl) written]
    exact .ok _
  · exact agrees_sumOfItems each written

/-- Measuring a layout agrees with what is written for it, at every path. -/
def LayoutAgrees (options : Options) (layout : Layout) : Prop :=
  ∀ (path : Path) (counted : Bool) (value : Value) (bytes : List UInt8),
    writeLayout options.encoding path counted value layout = .ok bytes →
      Agrees options (measureLayout options path counted (.ok value) layout) bytes.length

theorem agrees_measureFields {options : Options} {fields : List (String × Layout)}
    (each : ∀ field ∈ fields, LayoutAgrees options field.2) {path : Path}
    {entries : List (String × Value)} {bytes : List UInt8}
    (written : writeFields options.encoding path entries fields = .ok bytes) :
    Agrees options (measureFields options path entries fields) bytes.length := by
  induction fields generalizing bytes with
  | nil =>
      cases written
      exact .ok 0
  | cons field rest ih =>
      obtain ⟨value, found, written⟩ := bind_eq_ok_iff.mp written
      obtain ⟨first, firstWritten, written⟩ := bind_eq_ok_iff.mp written
      obtain ⟨others, othersWritten, rfl⟩ := bind_pure_eq_ok_iff.mp written
      obtain ⟨firstAgrees, othersAgree⟩ := List.forall_mem_cons.mp each
      rw [List.length_append, measureFields, found]
      exact (firstAgrees _ _ _ _ firstWritten).add (ih othersAgree othersWritten)

theorem agrees_measureHeads {options : Options} {heads : List Layout}
    (each : ∀ head ∈ heads, LayoutAgrees options head) {path : Path} {index : Nat}
    {items : List Value} {bytes : List UInt8}
    (written : writeHeads options.encoding path index items heads = .ok bytes) :
    Agrees options (measureHeads options path index items heads) bytes.length := by
  induction heads generalizing index items bytes with
  | nil =>
      cases written
      exact .ok 0
  | cons head rest ih =>
      obtain ⟨value, found, written⟩ := bind_eq_ok_iff.mp written
      obtain ⟨first, firstWritten, written⟩ := bind_eq_ok_iff.mp written
      obtain ⟨others, othersWritten, rfl⟩ := bind_pure_eq_ok_iff.mp written
      obtain ⟨firstAgrees, othersAgree⟩ := List.forall_mem_cons.mp each
      rw [List.length_append, measureHeads, found]
      exact (firstAgrees _ _ _ _ firstWritten).add (ih othersAgree othersWritten)

theorem agrees_measureLayout (options : Options) (layout : Layout) :
    LayoutAgrees options layout := by
  induction layout with
  | leaf type =>
      intro path counted value bytes written
      have leaf := mapError_eq_ok_iff.mp written
      simp only [measureLayout]
      split
      · rename_i width fixed lax
        rw [length_writeLeaf fixed leaf]
        exact .ok width
      · exact (agrees_measureLeaf leaf).mapError _
  | mapping fields ih =>
      intro path counted value bytes written
      cases value with
      | mapping entries => exact agrees_measureFields ih written
      | boolean | integer | float | text | bytes | sequence => cases written
  | sequence heads tail headsIh tailIh =>
      intro path counted value bytes written
      cases value with
      | sequence items =>
          simp only [writeLayout] at written
          split at written
          · rename_i long
            obtain ⟨first, firstWritten, written⟩ := bind_eq_ok_iff.mp written
            obtain ⟨others, othersWritten, rfl⟩ := bind_pure_eq_ok_iff.mp written
            have repeated := agrees_measureRepeated (layoutWidth? tail)
              (fun fixed _ _ _ => length_writeLayout_of_width tail fixed)
              (fun _ _ _ => tailIh _ _ _ _) othersWritten
            have measured : measureLayout options path counted (.ok (.sequence items))
                (.sequence heads tail) = (do
                  let first ← measureHeads options path 0 items heads
                  let rest ← (do
                    let others ← measureRepeated options (layoutWidth? tail)
                      (fun place item => measureLayout options place true (.ok item) tail) path
                      heads.length (items.drop heads.length)
                    return countLength counted (items.drop heads.length).length + others)
                  return first + rest) := by
              simp only [measureLayout, bind_assoc, pure_bind]
              exact if_pos long
            rw [List.length_append, List.length_append, length_countBytes, measured]
            exact (agrees_measureHeads headsIh firstWritten).add (repeated.after _)
          · cases written
      | boolean | integer | float | text | bytes | mapping => cases written

/-- What is measured for a value that can be written is the number of its bytes. -/
theorem agrees_encodedLength (options : Options) {layout : Layout} {value : Value}
    {bytes : List UInt8} (written : writeLayout options.encoding [] false value layout = .ok bytes) :
    Agrees options (encodedLength ⟨layout.plan, options⟩ value) bytes.length := by
  rw [encodedLength, measure_plan]
  split
  · rename_i width fixed lax
    rw [← length_writeLayout_of_width layout fixed written]
    exact .ok _
  · exact agrees_measureLayout options layout _ _ _ _ written

/-- Without the guard what can be written is encoded. -/
theorem encode_lax {encoding : TextEncoding} {layout : Layout} {value : Value} {bytes : List UInt8}
    (written : writeLayout encoding [] false value layout = .ok bytes) :
    encode ⟨layout.plan, encoding, false⟩ value = .ok bytes := by
  have agrees := agrees_encodedLength ⟨encoding, false⟩ written
  exact encode_eq_ok_iff.mpr ⟨⟨_, agrees.found rfl⟩, written⟩

theorem encodedLength_of_encode {aliases : AliasTable} {definition : Definition} {plan : Plan}
    (compiled : definition.compile aliases = .ok plan) {options : Options} {value : Value}
    {bytes : List UInt8} (encoded : encode ⟨plan, options⟩ value = .ok bytes) :
    encodedLength ⟨plan, options⟩ value = .ok bytes.length := by
  obtain ⟨layout, -, rfl⟩ := Definition.compile_eq_ok_iff.mp compiled
  obtain ⟨⟨size, measured⟩, written⟩ := encode_eq_ok_iff.mp encoded
  suffices same : size = bytes.length by rw [measured, same]
  rw [encodedLength, measure_plan] at measured
  split at measured
  · rename_i width fixed lax
    cases measured
    exact (length_writeLayout_of_width layout fixed written).symm
  · exact (agrees_measureLayout options layout _ _ _ _ written).unique size measured

theorem encodedLength_tagged :
    ∃ plan, (Definition.mapping [("tags", .sequence [.type "uint8", .type "string"]),
        ("id", .type "varuint")]).compile .initial = .ok plan ∧
      encodedLength ⟨plan, .utf8, true⟩ (.mapping [("id", .integer 300),
        ("tags", .sequence [.integer 7, .text "a", .text "bc"])]) = .ok 9 := by
  have compiled : (Definition.mapping [("tags", .sequence [.type "uint8", .type "string"]),
      ("id", .type "varuint")]).compile .initial = .ok (Layout.plan (.mapping
        [("id", .leaf .varuint), ("tags", .sequence [.leaf .uint8] (.leaf .string))])) := rfl
  have encoded : encode ⟨Layout.plan (.mapping [("id", .leaf .varuint),
      ("tags", .sequence [.leaf .uint8] (.leaf .string))]), .utf8, true⟩
      (.mapping [("id", .integer 300),
        ("tags", .sequence [.integer 7, .text "a", .text "bc"])]) =
        .ok [172, 2, 7, 2, 1, 97, 2, 98, 99] := rfl
  exact ⟨_, compiled, encodedLength_of_encode compiled encoded⟩

end SchemaWire.Codec
