import SchemaWire.Proofs.Codec.Parts

/-!
# Values and the paths to them

The path to a value is for its faults only. Where a value can be written the same bytes are written
under any path, so the elements of a sequence can be moved to other indexes.
-/

set_option autoImplicit false

namespace SchemaWire.Codec

open Outcome
open Schema (Layout)

/-- The bytes of a value of a layout, if any, are the same under every path. -/
def PathFree (encoding : TextEncoding) (layout : Layout) : Prop :=
  ∀ (path other : Path) (counted : Bool) (value : Value),
    (writeLayout encoding path counted value layout).toOption =
      (writeLayout encoding other counted value layout).toOption

theorem toOption_orMissing (path : Path) (value? : Option Value) :
    (orMissing path value?).toOption = value? := by
  cases value? <;> rfl

theorem toOption_fieldValue (path : Path) (entries : List (String × Value)) (name : String) :
    (fieldValue path entries name).toOption = entries.lookup name := by
  rw [fieldValue_eq, toOption_orMissing]

theorem toOption_headValue (path : Path) (index : Nat) (items : List Value) :
    (headValue path index items).toOption = items.head? := by
  rw [headValue_eq, toOption_orMissing]

variable {encoding : TextEncoding}

theorem toOption_writeFields {fields : List (String × Layout)}
    (each : ∀ field ∈ fields, PathFree encoding field.2) (path other : Path)
    (entries : List (String × Value)) :
    (writeFields encoding path entries fields).toOption =
      (writeFields encoding other entries fields).toOption := by
  induction fields with
  | nil => rfl
  | cons field rest ih =>
      obtain ⟨first, others⟩ := List.forall_mem_cons.mp each
      simp only [writeFields, toOption_bind, toOption_fieldValue, ih others,
        first (path ++ [.field field.1]) (other ++ [.field field.1])]

theorem toOption_writeHeads {heads : List Layout} (each : ∀ head ∈ heads, PathFree encoding head)
    (path other : Path) (index : Nat) (items : List Value) :
    (writeHeads encoding path index items heads).toOption =
      (writeHeads encoding other index items heads).toOption := by
  induction heads generalizing index items with
  | nil => rfl
  | cons head rest ih =>
      obtain ⟨first, others⟩ := List.forall_mem_cons.mp each
      simp only [writeHeads, toOption_bind, toOption_headValue, ih others,
        first (path ++ [.index index]) (other ++ [.index index])]

theorem toOption_writeItems {write : Path → Value → Except EncodeError (List UInt8)}
    (each : ∀ place other item, (write place item).toOption = (write other item).toOption)
    (path other : Path) (index position : Nat) (items : List Value) :
    (writeItems write path index items).toOption =
      (writeItems write other position items).toOption := by
  induction items generalizing index position with
  | nil => rfl
  | cons item rest ih =>
      simp only [writeItems, toOption_bind, ih (index + 1) (position + 1),
        each (path ++ [.index index]) (other ++ [.index position])]

theorem pathFree (layout : Layout) : PathFree encoding layout := by
  induction layout with
  | leaf type =>
      intro path other counted value
      rw [writeLayout, writeLayout, toOption_mapError, toOption_mapError]
  | mapping fields ih =>
      intro path other counted value
      cases value with
      | mapping entries => exact toOption_writeFields ih path other entries
      | boolean | integer | float | text | bytes | sequence => rfl
  | sequence heads tail headsIh tailIh =>
      intro path other counted value
      cases value with
      | sequence items =>
          have repeated := toOption_writeItems
            (fun place elsewhere item => tailIh place elsewhere true item) path other heads.length
              heads.length (items.drop heads.length)
          simp only [writeLayout]
          split
          · simp only [toOption_bind, toOption_writeHeads headsIh path other, repeated]
          · rfl
      | boolean | integer | float | text | bytes | mapping => rfl

/-! ## Elements one after another -/

theorem writeItems_cons_eq_ok_iff {write : Path → Value → Except EncodeError (List UInt8)}
    {path : Path} {index : Nat} {item : Value} {rest : List Value} {bytes : List UInt8} :
    writeItems write path index (item :: rest) = .ok bytes ↔
      ∃ first others, write (path ++ [.index index]) item = .ok first ∧
        writeItems write path (index + 1) rest = .ok others ∧ first ++ others = bytes := by
  rw [writeItems, bind_eq_ok_iff]
  refine exists_congr fun first => ?_
  rw [bind_pure_eq_ok_iff, exists_and_left]

/-- Elements are written one after another, and the later ones as at any other index. -/
theorem writeItems_append_eq_ok_iff {write : Path → Value → Except EncodeError (List UInt8)}
    (each : ∀ place other item, (write place item).toOption = (write other item).toOption)
    {path : Path} {index position : Nat} {first second : List Value} {bytes : List UInt8} :
    writeItems write path index (first ++ second) = .ok bytes ↔
      ∃ front more, writeItems write path index first = .ok front ∧
        writeItems write path position second = .ok more ∧ front ++ more = bytes := by
  induction first generalizing index bytes with
  | nil =>
      have moved : writeItems write path index second = .ok bytes ↔
          writeItems write path position second = .ok bytes := by
        rw [← toOption_eq_some_iff, toOption_writeItems each path path index position,
          toOption_eq_some_iff]
      rw [List.nil_append, moved]
      constructor
      · intro written
        exact ⟨[], bytes, rfl, written, rfl⟩
      · intro ⟨front, more, empty, written, same⟩
        cases empty
        rwa [← same]
  | cons item rest ih =>
      rw [List.cons_append, writeItems_cons_eq_ok_iff]
      constructor
      · intro ⟨here, others, head, written, same⟩
        obtain ⟨front, more, middle, last, rfl⟩ := ih.mp written
        exact ⟨here ++ front, more, writeItems_cons_eq_ok_iff.mpr ⟨here, front, head, middle, rfl⟩,
          last, by rw [List.append_assoc, same]⟩
      · intro ⟨front, more, written, last, same⟩
        obtain ⟨here, others, head, middle, rfl⟩ := writeItems_cons_eq_ok_iff.mp written
        exact ⟨here, others ++ more, head, ih.mpr ⟨others, more, middle, last, rfl⟩, by
          rw [← List.append_assoc, same]⟩

/-- The heads are written from the first items only. -/
theorem writeHeads_append {path : Path} {index : Nat} {heads : List Layout}
    {items : List Value} (long : heads.length ≤ items.length) (others : List Value) :
    writeHeads encoding path index (items ++ others) heads =
      writeHeads encoding path index items heads := by
  induction heads generalizing index items with
  | nil => rfl
  | cons head rest ih =>
      cases items with
      | nil => cases long
      | cons item items =>
          simp only [writeHeads, List.cons_append, List.tail_cons,
            ih (Nat.le_of_succ_le_succ long)]
          rfl

/-- A sequence at the root has no count between its heads and the other elements. -/
theorem writeRoot_eq_ok_iff {heads : List Layout} {tail : Layout} {path : Path} {items : List Value}
    (long : heads.length ≤ items.length) {bytes : List UInt8} :
    writeLayout encoding path false (.sequence items) (.sequence heads tail) = .ok bytes ↔
      ∃ first others, writeHeads encoding path 0 items heads = .ok first ∧
        writeItems (fun place item => writeLayout encoding place true item tail) path heads.length
          (items.drop heads.length) = .ok others ∧ first ++ others = bytes := by
  simp only [writeLayout, if_pos long]
  rw [bind_eq_ok_iff]
  refine exists_congr fun first => ?_
  rw [bind_pure_eq_ok_iff, exists_and_left]
  rfl

/-- A sequence at the root is written as its beginning and then the other elements on their own. -/
theorem writeRoot_append_eq_ok_iff {heads : List Layout} {tail : Layout} {path : Path}
    {first second : List Value} (long : heads.length ≤ first.length) {bytes : List UInt8} :
    writeLayout encoding path false (.sequence (first ++ second)) (.sequence heads tail) = .ok bytes ↔
      ∃ front more,
        writeLayout encoding path false (.sequence first) (.sequence heads tail) = .ok front ∧
        writeLayout encoding path false (.sequence second) (.sequence [] tail) = .ok more ∧
          front ++ more = bytes := by
  have longer : heads.length ≤ (first ++ second).length := by
    rw [List.length_append]
    exact Nat.le_trans long (Nat.le_add_right _ _)
  have each : ∀ place other item, (writeLayout encoding place true item tail).toOption =
      (writeLayout encoding other true item tail).toOption :=
    fun place other item => pathFree tail place other true item
  have alone : ∀ {more}, writeLayout encoding path false (.sequence second) (.sequence [] tail) =
      .ok more ↔ writeItems (fun place item => writeLayout encoding place true item tail) path 0
        second = .ok more := by
    intro more
    rw [writeRoot_eq_ok_iff (Nat.zero_le _)]
    constructor
    · intro ⟨start, others, empty, written, same⟩
      cases empty
      rwa [← same]
    · intro written
      exact ⟨[], more, rfl, written, rfl⟩
  rw [writeRoot_eq_ok_iff longer, writeHeads_append long, List.drop_append_of_le_length long]
  constructor
  · intro ⟨start, others, headsWritten, written, same⟩
    obtain ⟨front, more, frontWritten, moreWritten, rfl⟩ :=
      (writeItems_append_eq_ok_iff each).mp written
    exact ⟨start ++ front, more,
      (writeRoot_eq_ok_iff long).mpr ⟨start, front, headsWritten, frontWritten, rfl⟩,
      alone.mpr moreWritten, by rw [List.append_assoc, same]⟩
  · intro ⟨front, more, written, moreWritten, same⟩
    obtain ⟨start, others, headsWritten, frontWritten, rfl⟩ := (writeRoot_eq_ok_iff long).mp written
    exact ⟨start, others ++ more, headsWritten, (writeItems_append_eq_ok_iff each).mpr
      ⟨others, more, frontWritten, alone.mp moreWritten, rfl⟩, by rw [← List.append_assoc, same]⟩

end SchemaWire.Codec
