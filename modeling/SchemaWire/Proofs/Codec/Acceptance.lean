import SchemaWire.Proofs.Codec.Delimiting
import SchemaWire.Proofs.Codec.Forms
import SchemaWire.Proofs.Wire.Outcomes

/-!
# Reading the forms

Reading accepts the forms of a value and nothing else. Inside a buffer this holds whatever comes
after a form; a sequence at the root goes on to the end of the buffer.
-/

set_option autoImplicit false

namespace SchemaWire.Codec

open Schema (Layout)
open Wire (Denotes Read Reader)

/-- A read accepts exactly the given forms, as far as readers behind the form are concerned that
satisfy a condition. -/
structure Accepts {α : Type} (ends : Reader → Prop) (read : Read α)
    (form : List Piece → α → Prop) : Prop where
  ok_iff {reader next : Reader} {value : α} : reader.size < 2 ^ 63 → ends next →
    (read reader = .ok value next ↔
      ∃ pieces, form pieces value ∧ reader.Passes (joined pieces) next)

def anywhere : Reader → Prop := fun _ => True

/-! ## Parts -/

theorem Accepts.pure {α : Type} {ends : Reader → Prop} (value : α) :
    Accepts ends (Pure.pure value) fun pieces found => pieces = [] ∧ found = value := by
  constructor
  intro reader next found _ _
  rw [Read.pure_eq_ok_iff]
  constructor
  · rintro ⟨rfl, rfl⟩
    exact ⟨[], ⟨rfl, rfl⟩, Reader.Passes.nil_iff.mpr rfl⟩
  · rintro ⟨_, ⟨rfl, rfl⟩, passes⟩
    exact ⟨rfl, Reader.Passes.nil_iff.mp passes⟩

theorem Accepts.map {α β : Type} {ends : Reader → Prop} {read : Read α}
    {form : List Piece → α → Prop} (accepts : Accepts ends read form) (result : α → β) :
    Accepts ends (do let found ← read; return result found)
      fun pieces value => ∃ found, form pieces found ∧ value = result found := by
  constructor
  intro reader next value bounded ended
  rw [Read.bind_pure_eq_ok_iff]
  constructor
  · rintro ⟨found, success, rfl⟩
    obtain ⟨pieces, spelled, passes⟩ := (accepts.ok_iff bounded ended).mp success
    exact ⟨pieces, ⟨found, spelled, rfl⟩, passes⟩
  · rintro ⟨pieces, ⟨found, spelled, rfl⟩, passes⟩
    exact ⟨found, (accepts.ok_iff bounded ended).mpr ⟨pieces, spelled, passes⟩, rfl⟩

/-- A read after another one takes the pieces after those of the other one. -/
theorem Accepts.pair {α β γ : Type} {ends : Reader → Prop} {first : Read α} {second : Read β}
    {firstForm : List Piece → α → Prop} {secondForm : List Piece → β → Prop}
    (left : Accepts anywhere first firstForm) (right : Accepts ends second secondForm)
    (result : α → β → γ) :
    Accepts ends (do let value ← first; let other ← second; return result value other)
      fun pieces found => ∃ pieces₁ value pieces₂ other, firstForm pieces₁ value ∧
        secondForm pieces₂ other ∧ pieces = pieces₁ ++ pieces₂ ∧ found = result value other := by
  constructor
  intro reader next found bounded ended
  rw [Read.bind_eq_ok_iff]
  constructor
  · rintro ⟨value, middle, firstRead, rest⟩
    obtain ⟨other, secondRead, rfl⟩ := Read.bind_pure_eq_ok_iff.mp rest
    obtain ⟨pieces₁, form₁, passes₁⟩ := (left.ok_iff bounded trivial).mp firstRead
    obtain ⟨pieces₂, form₂, passes₂⟩ :=
      (right.ok_iff (by rwa [passes₁.size_eq]) ended).mp secondRead
    exact ⟨_, ⟨pieces₁, value, pieces₂, other, form₁, form₂, rfl, rfl⟩, by
      rw [joined_append]; exact passes₁.trans passes₂⟩
  · rintro ⟨_, ⟨pieces₁, value, pieces₂, other, form₁, form₂, rfl, rfl⟩, passes⟩
    rw [joined_append] at passes
    obtain ⟨middle, passes₁, passes₂⟩ := Reader.Passes.append_iff.mp passes
    exact ⟨value, middle, (left.ok_iff bounded trivial).mpr ⟨pieces₁, form₁, passes₁⟩,
      Read.bind_pure_eq_ok_iff.mpr ⟨other,
        (right.ok_iff (by rwa [passes₁.size_eq]) ended).mpr ⟨pieces₂, form₂, passes₂⟩, rfl⟩⟩

/-! ## Leaves -/

/-- A read of one datum that is written in one way only. -/
theorem Accepts.datum {α : Type} {read : Read α} (piece : α → Piece)
    (ok_iff : ∀ {reader next : Reader} {value : α},
      read reader = .ok value next ↔ reader.Passes (piece value).bytes next) :
    Accepts anywhere read fun pieces value => pieces = [piece value] := by
  constructor
  intro reader next value _ _
  rw [ok_iff, exists_eq_left, joined_singleton]

theorem accepts_fixed (width : Nat) : Accepts anywhere (Read.fixed width) (FixedForm width) := by
  constructor
  intro reader next number _ _
  rw [Read.fixed_eq_ok_iff]
  constructor
  · rintro ⟨bytes, length, value, passes⟩
    exact ⟨_, ⟨bytes, length, value, rfl⟩, by rwa [joined_singleton]⟩
  · rintro ⟨_, ⟨bytes, length, value, rfl⟩, passes⟩
    rw [joined_singleton] at passes
    exact ⟨bytes, length, value, passes⟩

theorem accepts_varuint : Accepts anywhere Read.varuint GroupsForm := by
  constructor
  intro reader next number _ _
  rw [Read.varuint_eq_ok_iff]
  constructor
  · rintro ⟨bytes, denotes, passes⟩
    exact ⟨_, ⟨bytes, denotes, rfl⟩, by rwa [joined_singleton]⟩
  · rintro ⟨_, ⟨bytes, denotes, rfl⟩, passes⟩
    rw [joined_singleton] at passes
    exact ⟨bytes, denotes, passes⟩

theorem accepts_varint :
    Accepts anywhere Read.varint fun pieces number => GroupsForm pieces (Wire.zigzag number) := by
  constructor
  intro reader next number bounded _
  rw [← accepts_varuint.ok_iff bounded trivial, Read.varint_eq_ok_iff, Read.varuint_eq_ok_iff]

theorem accepts_text (encoding : TextEncoding) :
    Accepts anywhere (Read.text encoding) (TextForm encoding) := by
  constructor
  intro reader next text bounded _
  rw [Read.text_eq_ok_iff bounded]
  constructor
  · rintro ⟨length, bytes, denotes, content, passes⟩
    exact ⟨_, ⟨length, bytes, denotes, content, rfl⟩, by rwa [joined_cons, joined_singleton]⟩
  · rintro ⟨_, ⟨length, bytes, denotes, content, rfl⟩, passes⟩
    rw [joined_cons, joined_singleton] at passes
    exact ⟨length, bytes, denotes, content, passes⟩

theorem accepts_prefixed : Accepts anywhere Read.prefixed BufferForm := by
  constructor
  intro reader next bytes bounded _
  rw [Read.prefixed_eq_ok_iff bounded]
  constructor
  · rintro ⟨length, denotes, passes⟩
    exact ⟨_, ⟨length, denotes, rfl⟩, by rwa [joined_cons, joined_singleton]⟩
  · rintro ⟨_, ⟨length, denotes, rfl⟩, passes⟩
    rw [joined_cons, joined_singleton] at passes
    exact ⟨length, denotes, passes⟩

theorem accepts_readLeaf (encoding : TextEncoding) (type : Primitive) :
    Accepts anywhere (readLeaf encoding type) (LeafForm encoding type) := by
  cases type with
  | boolean => exact (Accepts.datum .boolean Read.byte_eq_ok_iff).map _
  | int8 | uint8 | int16 | uint16 | int32 | uint32 => exact (accepts_fixed _).map _
  | float32 => exact (Accepts.datum .single Read.binary32_eq_ok_iff).map _
  | float64 => exact (Accepts.datum .double Read.binary64_eq_ok_iff).map _
  | varuint => exact accepts_varuint.map _
  | varint => exact accepts_varint.map _
  | string => exact (accepts_text encoding).map _
  | buffer => exact accepts_prefixed.map _

/-! ## Children -/

theorem accepts_readFields {encoding : TextEncoding} {fields : List (String × Layout)}
    (each : ∀ field ∈ fields,
      Accepts anywhere (readLayout encoding true field.2) (LayoutForm encoding true field.2)) :
    Accepts anywhere (readFields encoding fields) (FieldsForm encoding fields) := by
  induction fields with
  | nil => exact .pure _
  | cons field rest ih =>
      obtain ⟨first, others⟩ := List.forall_mem_cons.mp each
      exact first.pair (ih others) fun value remaining => (field.1, value) :: remaining

theorem accepts_readHeads {encoding : TextEncoding} {heads : List Layout}
    (each : ∀ head ∈ heads,
      Accepts anywhere (readLayout encoding true head) (LayoutForm encoding true head)) :
    Accepts anywhere (readHeads encoding heads) (HeadsForm encoding heads) := by
  induction heads with
  | nil => exact .pure _
  | cons head rest ih =>
      obtain ⟨first, others⟩ := List.forall_mem_cons.mp each
      exact first.pair (ih others) fun value remaining => value :: remaining

theorem accepts_times {read : Read Value} {form : List Piece → Value → Prop}
    (element : Accepts anywhere read form) (count : Nat) :
    Accepts anywhere (Read.times read count)
      fun pieces items => ItemsForm form pieces items ∧ items.length = count := by
  induction count with
  | zero =>
      constructor
      intro reader next items _ _
      rw [Read.times, Read.pure_eq_ok_iff]
      constructor
      · rintro ⟨rfl, rfl⟩
        exact ⟨[], ⟨.nil, rfl⟩, Reader.Passes.nil_iff.mpr rfl⟩
      · rintro ⟨_, ⟨spelled, empty⟩, passes⟩
        cases spelled with
        | nil => exact ⟨rfl, Reader.Passes.nil_iff.mp passes⟩
        | cons head rest => cases empty
  | succ count ih =>
      constructor
      intro reader next items bounded _
      rw [Read.times, (element.pair ih List.cons).ok_iff bounded trivial]
      constructor
      · rintro ⟨_, ⟨first, item, others, items, head, ⟨rest, rfl⟩, rfl, rfl⟩, passes⟩
        exact ⟨_, ⟨.cons head rest, rfl⟩, passes⟩
      · rintro ⟨_, ⟨spelled, length⟩, passes⟩
        cases spelled with
        | nil => cases length
        | cons head rest =>
            exact ⟨_, ⟨_, _, _, _, head, ⟨rest, Nat.succ.inj length⟩, rfl, rfl⟩, passes⟩

theorem ItemsForm.exhausted_iff {form : List Piece → Value → Prop}
    (nonempty : ∀ {pieces value}, form pieces value → joined pieces ≠ []) {reader next : Reader}
    (exhausted : reader.rest = []) {items : List Value} :
    (∃ pieces, ItemsForm form pieces items ∧ reader.Passes (joined pieces) next) ↔
      items = [] ∧ next = reader := by
  constructor
  · rintro ⟨pieces, spelled, passes⟩
    cases spelled with
    | nil => exact ⟨rfl, Reader.Passes.nil_iff.mp passes⟩
    | cons head rest =>
        have split := passes.rest
        rw [exhausted, joined_append, List.append_assoc] at split
        exact absurd (List.append_eq_nil_iff.mp split.symm).1 (nonempty head)
  · rintro ⟨rfl, rfl⟩
    exact ⟨[], .nil, Reader.Passes.nil_iff.mpr rfl⟩

/-- Every element takes a byte, so the number of bytes is limit enough. -/
theorem untilExhausted_eq_ok_iff {read : Read Value} {form : List Piece → Value → Prop}
    (element : Accepts anywhere read form)
    (nonempty : ∀ {pieces value}, form pieces value → joined pieces ≠ []) {limit : Nat}
    {reader next : Reader} {items : List Value} (bounded : reader.size < 2 ^ 63)
    (enough : reader.remaining ≤ limit) (ended : next.rest = []) :
    Read.untilExhausted read limit reader = .ok items next ↔
      ∃ pieces, ItemsForm form pieces items ∧ reader.Passes (joined pieces) next := by
  induction limit generalizing reader items with
  | zero =>
      have exhausted : reader.rest = [] := List.length_eq_zero_iff.mp (Nat.le_zero.mp enough)
      rw [ItemsForm.exhausted_iff nonempty exhausted, Read.untilExhausted, Read.pure_eq_ok_iff]
  | succ limit ih =>
      rw [Read.untilExhausted_succ]
      split
      · rename_i exhausted
        rw [ItemsForm.exhausted_iff nonempty (List.isEmpty_iff.mp exhausted)]
        constructor
        · intro success
          cases success
          exact ⟨rfl, rfl⟩
        · rintro ⟨rfl, rfl⟩
          rfl
      · -- The element takes a byte, so the limit is still enough for the bytes that are left.
        have fewer : ∀ {pieces value middle}, form pieces value →
            reader.Passes (joined pieces) middle → middle.remaining ≤ limit := by
          intro pieces value middle head passes
          have some := List.length_pos_iff.mpr (nonempty head)
          have split := congrArg List.length passes.rest
          rw [List.length_append] at split
          simp only [Reader.remaining] at enough ⊢
          omega
        rw [Read.bind_eq_ok_iff]
        constructor
        · rintro ⟨item, middle, first, success⟩
          obtain ⟨others, rest, rfl⟩ := Read.bind_pure_eq_ok_iff.mp success
          obtain ⟨pieces, head, passes⟩ := (element.ok_iff bounded trivial).mp first
          obtain ⟨remaining, tail, passesRest⟩ :=
            (ih (by rwa [passes.size_eq]) (fewer head passes)).mp rest
          exact ⟨_, .cons head tail, by rw [joined_append]; exact passes.trans passesRest⟩
        · rintro ⟨_, form, passes⟩
          cases form with
          | nil =>
              rename_i unexhausted
              have same := Reader.Passes.nil_iff.mp passes
              rw [same] at ended
              exact absurd (List.isEmpty_iff.mpr ended) unexhausted
          | cons head tail =>
              rw [joined_append] at passes
              obtain ⟨middle, passesHead, passesTail⟩ := Reader.Passes.append_iff.mp passes
              exact ⟨_, middle, (element.ok_iff bounded trivial).mpr ⟨_, head, passesHead⟩,
                Read.bind_pure_eq_ok_iff.mpr ⟨_, (ih (by rwa [passesHead.size_eq])
                  (fewer head passesHead)).mpr ⟨_, tail, passesTail⟩, rfl⟩⟩

def atEnd (reader : Reader) : Prop := reader.rest = []

theorem accepts_toEnd {read : Read Value} {form : List Piece → Value → Prop}
    (element : Accepts anywhere read form)
    (nonempty : ∀ {pieces value}, form pieces value → joined pieces ≠ []) :
    Accepts atEnd (Read.toEnd read) (ItemsForm form) where
  ok_iff bounded ended := untilExhausted_eq_ok_iff element nonempty bounded (Nat.le_refl _) ended

theorem readCount_eq_ok_iff {reader next : Reader} (bounded : reader.size < 2 ^ 63) {count : Nat} :
    readCount reader = .ok count next ↔
      ∃ bytes, Denotes bytes (UInt64.ofNat count) ∧ reader.Passes bytes next ∧ count ≤ next.remaining := by
  rw [readCount_eq, Read.bind_eq_ok_iff]
  constructor
  · rintro ⟨declared, middle, first, success⟩
    obtain ⟨length, checkedAt, checked, counted⟩ := Read.bind_eq_ok_iff.mp success
    obtain ⟨bytes, denotes, passes⟩ := Read.varuint_eq_ok_iff.mp first
    obtain ⟨-, -, rfl, rfl⟩ := Read.checkedLength_eq_ok_iff.mp checked
    obtain ⟨enough, rfl, rfl⟩ := remainingAtLeast_eq_ok_iff.mp counted
    exact ⟨bytes, by rwa [UInt64.ofNat_toNat], passes, enough⟩
  · rintro ⟨bytes, denotes, passes, enough⟩
    have size := passes.size_eq
    rw [Reader.size] at size
    have number : (UInt64.ofNat count).toNat = count := by
      rw [UInt64.toNat_ofNat']
      omega
    refine ⟨_, next, Read.varuint_eq_ok_iff.mpr ⟨bytes, denotes, passes⟩, Read.bind_eq_ok_iff.mpr
      ⟨count, next, Read.checkedLength_eq_ok_iff.mpr ?_,
        remainingAtLeast_eq_ok_iff.mpr ⟨enough, rfl, rfl⟩⟩⟩
    rw [number]
    exact ⟨by omega, by omega, rfl, rfl⟩

/-- A count is not refused before its elements are read if these can be read. -/
theorem accepts_counted {read : Read Value} {form : List Piece → Value → Prop}
    (element : Accepts anywhere read form)
    (nonempty : ∀ {pieces value}, form pieces value → joined pieces ≠ []) :
    Accepts anywhere (do let count ← readCount; Read.times read count)
      fun pieces items => ∃ count rest, CountForm items.length true count ∧
        ItemsForm form rest items ∧ pieces = count ++ rest := by
  constructor
  intro reader next items bounded _
  rw [Read.bind_eq_ok_iff]
  constructor
  · rintro ⟨count, middle, first, success⟩
    obtain ⟨bytes, denotes, passes, -⟩ := (readCount_eq_ok_iff bounded).mp first
    obtain ⟨rest, ⟨form, rfl⟩, passesRest⟩ :=
      ((accepts_times element count).ok_iff (by rwa [passes.size_eq]) trivial).mp success
    exact ⟨_, ⟨_, rest, ⟨bytes, denotes, rfl⟩, form, rfl⟩, by
      rw [joined_append, joined_singleton]; exact passes.trans passesRest⟩
  · rintro ⟨_, ⟨_, rest, ⟨bytes, denotes, rfl⟩, form, rfl⟩, passes⟩
    rw [joined_append, joined_singleton] at passes
    obtain ⟨middle, passesCount, passesRest⟩ := Reader.Passes.append_iff.mp passes
    have enough := Nat.le_trans (form.length_le nonempty) passesRest.length_le.2
    exact ⟨_, middle, (readCount_eq_ok_iff bounded).mpr ⟨_, denotes, passesCount, enough⟩,
      ((accepts_times element _).ok_iff (by rwa [passesCount.size_eq]) trivial).mpr
        ⟨rest, ⟨form, rfl⟩, passesRest⟩⟩

theorem accepts_uncounted {read : Read (List Value)} {form : List Piece → Value → Prop}
    {ends : Reader → Prop} (items : Accepts ends read (ItemsForm form)) :
    Accepts ends read fun pieces items => ∃ count rest, CountForm items.length false count ∧
      ItemsForm form rest items ∧ pieces = count ++ rest := by
  constructor
  intro reader next others bounded ended
  rw [items.ok_iff bounded ended]
  constructor
  · rintro ⟨pieces, spelled, passes⟩
    exact ⟨pieces, ⟨[], pieces, rfl, spelled, rfl⟩, passes⟩
  · rintro ⟨_, ⟨_, _, rfl, spelled, rfl⟩, passes⟩
    exact ⟨_, spelled, passes⟩

/-! ## Layouts -/

theorem accepts_readMapping {encoding : TextEncoding} {fields : List (String × Layout)}
    (each : ∀ field ∈ fields,
      Accepts anywhere (readLayout encoding true field.2) (LayoutForm encoding true field.2))
    (counted : Bool) :
    Accepts anywhere (readLayout encoding counted (.mapping fields))
      (LayoutForm encoding counted (.mapping fields)) :=
  (accepts_readFields each).map Value.ofFields

theorem accepts_readSequence {encoding : TextEncoding} {heads : List Layout} {tail : Layout}
    (each : ∀ head ∈ heads,
      Accepts anywhere (readLayout encoding true head) (LayoutForm encoding true head))
    {counted : Bool} {ends : Reader → Prop} {repeated : Read (List Value)}
    (rest : Accepts ends repeated fun pieces others => ∃ count rest,
      CountForm others.length counted count ∧
        ItemsForm (LayoutForm encoding true tail) rest others ∧ pieces = count ++ rest)
    (same : readLayout encoding counted (.sequence heads tail) = (do
      let first ← readHeads encoding heads
      let others ← repeated
      return .sequence (first ++ others))) :
    Accepts ends (readLayout encoding counted (.sequence heads tail))
      (LayoutForm encoding counted (.sequence heads tail)) := by
  constructor
  intro reader next value bounded ended
  have parts := (accepts_readHeads each).pair rest fun first others =>
    Value.sequence (first ++ others)
  rw [same, parts.ok_iff bounded ended]
  constructor
  · rintro ⟨_, ⟨first, items, _, others, spelled, ⟨count, rest, number, repeated, rfl⟩, rfl,
      rfl⟩, passes⟩
    exact ⟨_, ⟨first, items, count, rest, others, spelled, number, repeated, rfl, rfl⟩, passes⟩
  · rintro ⟨_, ⟨first, items, count, rest, others, spelled, number, repeated, rfl, rfl⟩, passes⟩
    exact ⟨_, ⟨first, items, _, others, spelled, ⟨count, rest, number, repeated, rfl⟩, rfl, rfl⟩,
      passes⟩

/-- Inside a buffer the forms of a value are read, whatever comes after them. -/
theorem accepts_readLayout (encoding : TextEncoding) {layout : Layout}
    (wellFormed : layout.WellFormed) :
    Accepts anywhere (readLayout encoding true layout) (LayoutForm encoding true layout) := by
  induction wellFormed with
  | leaf type => exact accepts_readLeaf encoding type
  | mapping nonempty distinct each ih => exact accepts_readMapping ih true
  | @sequence heads tail each last ih lastIh =>
      refine accepts_readSequence ih (accepts_counted lastIh (LayoutForm.joined_ne_nil last)) ?_
      simp only [readLayout, ↓reduceIte, bind_assoc]

/-- A root sequence goes on to the end of the buffer. -/
theorem accepts_readRoot (encoding : TextEncoding) {layout : Layout}
    (wellFormed : layout.WellFormed) :
    Accepts atEnd (readLayout encoding false layout) (LayoutForm encoding false layout) := by
  cases wellFormed with
  | leaf type => exact ⟨fun bounded _ => (accepts_readLeaf encoding type).ok_iff bounded trivial⟩
  | mapping nonempty distinct each =>
      have fields := accepts_readMapping
        (fun field member => accepts_readLayout encoding (each field member)) false
      exact ⟨fun bounded _ => fields.ok_iff bounded trivial⟩
  | @sequence heads tail each last =>
      have repeated := accepts_uncounted
        (accepts_toEnd (accepts_readLayout encoding last) (LayoutForm.joined_ne_nil last))
      refine accepts_readSequence (fun head member => accepts_readLayout encoding (each head member))
        repeated ?_
      simp only [readLayout, Bool.false_eq_true, ↓reduceIte]

/-- A whole buffer is decoded as a value exactly if it is one of its forms. -/
theorem decode_eq_ok_iff_form {options : Options} {layout : Layout}
    (wellFormed : layout.WellFormed) {bytes : List UInt8} (bounded : bytes.length < 2 ^ 63)
    {value : Value} :
    decode ⟨layout.plan, options⟩ bytes = .ok value ↔
      ∃ pieces, LayoutForm options.encoding false layout pieces value ∧ joined pieces = bytes := by
  have size : (Reader.ofBytes bytes).size < 2 ^ 63 := by
    rwa [Reader.size, Reader.ofBytes, Reader.remaining, Nat.zero_add]
  have root := accepts_readRoot options.encoding wellFormed
  rw [decode_eq_ok_iff]
  constructor
  · rintro ⟨next, success, exhausted⟩
    obtain ⟨pieces, form, passes⟩ := (root.ok_iff size exhausted).mp success
    have split := passes.rest
    rw [exhausted, List.append_nil] at split
    exact ⟨pieces, form, split.symm⟩
  · rintro ⟨pieces, form, rfl⟩
    have ended : atEnd ⟨(joined pieces).length, []⟩ := rfl
    exact ⟨_, (root.ok_iff size ended).mpr ⟨pieces, form,
      ⟨(List.append_nil _).symm, (Nat.zero_add _).symm⟩⟩, rfl⟩

end SchemaWire.Codec
