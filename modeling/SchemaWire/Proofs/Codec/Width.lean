import SchemaWire.Proofs.Codec.Acceptance
import SchemaWire.Proofs.Codec.Size

/-!
# Widths

The width of a plan says which buffers are accepted. If there is a width, every buffer of so many
bytes is accepted and no other one; if there is none, buffers of different lengths are accepted,
because integers, lengths and counts have longer forms and a sequence at the root goes on to the
end.
-/

set_option autoImplicit false

namespace SchemaWire

/-! ## Steps -/

namespace Schema

mutual

/-- The number of steps that a step stands for, those for a repeated element included. -/
def Step.total : Step → Nat
  | .leaf _ _ | .openMapping _ | .closeMapping _ | .openSequence _ _ => 1
  | .closeSequence _ _ tail _ => 1 + tail.total

def Tail.total : Tail → Nat
  | .leaf _ => 1
  | .plan steps => totalSteps steps

/-- The number of steps of a plan, those for repeated elements included. -/
def totalSteps : List Step → Nat
  | [] => 0
  | step :: rest => step.total + totalSteps rest

end

theorem totalSteps_append (first second : List Step) :
    totalSteps (first ++ second) = totalSteps first + totalSteps second := by
  induction first with
  | nil => exact (Nat.zero_add _).symm
  | cons step rest ih => rw [List.cons_append, totalSteps, ih, totalSteps, Nat.add_assoc]

theorem total_asTail (layout : Layout) (slot : Slot) (counted : Bool) :
    (layout.asTail (layout.stepsIn slot counted)).total =
      totalSteps (layout.stepsIn slot counted) := by
  cases layout <;> rfl

end Schema

/-! ## Reads of a fixed number of bytes -/

namespace Wire

/-- The reader after so many bytes. -/
def Reader.skip (reader : Reader) (count : Nat) : Reader :=
  ⟨reader.position + count, reader.rest.drop count⟩

theorem Reader.skip_skip (reader : Reader) (first second : Nat) :
    (reader.skip first).skip second = reader.skip (first + second) := by
  simp only [Reader.skip, List.drop_drop, Nat.add_assoc]

theorem Reader.remaining_skip (reader : Reader) (count : Nat) :
    (reader.skip count).remaining = reader.remaining - count := by
  simp only [Reader.remaining, Reader.skip, List.length_drop]

theorem Reader.size_skip {reader : Reader} {count : Nat} (enough : count ≤ reader.remaining) :
    (reader.skip count).size = reader.size := by
  rw [Reader.size, Reader.remaining_skip, Reader.size]
  simp only [Reader.skip]
  omega

namespace Read

variable {α β : Type}

/-- The read takes so many bytes, whatever they are, and asks for no more than these if there are
fewer. -/
structure Exactly (read : Read α) (width : Nat) : Prop where
  enough {reader : Reader} : width ≤ reader.remaining →
    ∃ value, read reader = .ok value (reader.skip width)
  short {reader : Reader} : reader.remaining < width → ∃ need after,
    read reader = .error (.truncated need reader.size) after ∧
      need ≤ reader.position + width ∧ (reader.size < 2 ^ 63 → reader.size < need)

namespace Exactly

theorem pure (value : α) : Exactly (Pure.pure value : Read α) 0 where
  enough _ := ⟨value, rfl⟩
  short few := absurd few (Nat.not_lt_zero _)

theorem take (count : Nat) : Exactly (Read.take count) count where
  enough many := by
    rw [take_apply, if_pos many]
    exact ⟨_, rfl⟩
  short {reader} few := by
    rw [take_apply, if_neg (Nat.not_le.mpr few)]
    refine ⟨_, _, rfl, Nat.min_le_left _ _, fun bounded => ?_⟩
    rw [Reader.size] at bounded ⊢
    omega

theorem bind {read : Read α} {next : α → Read β} {first second : Nat} (left : Exactly read first)
    (right : ∀ value, Exactly (next value) second) : Exactly (read >>= next) (first + second) where
  enough {reader} many := by
    obtain ⟨value, success⟩ := left.enough (Nat.le_trans (Nat.le_add_right first second) many)
    have others : second ≤ (reader.skip first).remaining := by
      rw [Reader.remaining_skip]
      omega
    obtain ⟨result, rest⟩ := (right value).enough others
    exact ⟨result, bind_eq_ok_iff.mpr ⟨value, _, success, by rw [rest, Reader.skip_skip]⟩⟩
  short {reader} few := by
    by_cases many : first ≤ reader.remaining
    · obtain ⟨value, success⟩ := left.enough many
      have others : (reader.skip first).remaining < second := by
        rw [Reader.remaining_skip]
        omega
      have whole : (reader.skip first).size = reader.size := Reader.size_skip many
      obtain ⟨need, after, failure, least, more⟩ := (right value).short others
      rw [whole] at failure more
      refine ⟨need, after, bind_eq_error_iff.mpr (.inr ⟨value, _, success, failure⟩), ?_, more⟩
      rwa [Reader.skip, Nat.add_assoc] at least
    · obtain ⟨need, after, failure, least, more⟩ := left.short (Nat.not_le.mp many)
      exact ⟨need, after, bind_eq_error_iff.mpr (.inl failure), by omega, more⟩

theorem map {read : Read α} {width : Nat} (exactly : Exactly read width) (result : α → β) :
    Exactly (do let value ← read; return result value) width :=
  exactly.bind fun value => .pure (result value)

theorem pair {γ : Type} {read : Read α} {next : Read β} {first second : Nat}
    (left : Exactly read first) (right : Exactly next second) (result : α → β → γ) :
    Exactly (do let value ← read; let other ← next; return result value other) (first + second) :=
  left.bind fun value => right.map (result value)

theorem fixed (width : Nat) : Exactly (Read.fixed width) width :=
  (take width).map _

end Exactly

end Read

end Wire

namespace Codec

open Outcome
open Schema (AliasTable Definition Layout Plan Step stepsOfFields stepsOfHeads totalSteps
  totalSteps_append total_asTail)
open Wire (Denotes Read Reader)

/-! ## Layouts with a width -/

theorem exactly_readLeaf (encoding : TextEncoding) {type : Primitive} {width : Nat}
    (fixed : type.width? = some width) : Read.Exactly (readLeaf encoding type) width := by
  cases type with
  | boolean =>
      cases fixed
      exact ((Read.Exactly.fixed 1).map _).map _
  | int8 | uint8 | int16 | uint16 | int32 | uint32 =>
      cases fixed
      exact (Read.Exactly.fixed _).map _
  | float32 | float64 =>
      cases fixed
      exact ((Read.Exactly.fixed _).map _).map _
  | string | varuint | varint | buffer => cases fixed

theorem exactly_readFields {encoding : TextEncoding} {fields : List (String × Layout)}
    (each : ∀ field ∈ fields, ∀ {width : Nat}, layoutWidth? field.2 = some width →
      Read.Exactly (readLayout encoding true field.2) width) {width : Nat}
    (fixed : fieldsWidth? fields = some width) :
    Read.Exactly (readFields encoding fields) width := by
  induction fields generalizing width with
  | nil =>
      cases fixed
      exact .pure _
  | cons field rest ih =>
      obtain ⟨first, firstFixed, fixed⟩ := Option.bind_eq_some_iff.mp fixed
      obtain ⟨others, othersFixed, same⟩ := Option.bind_eq_some_iff.mp fixed
      cases same
      have eachOther := fun other member => @each other (List.mem_cons_of_mem _ member)
      exact (each field List.mem_cons_self firstFixed).pair (ih eachOther othersFixed) _

theorem exactly_readLayout (encoding : TextEncoding) (layout : Layout) :
    ∀ {counted : Bool} {width : Nat}, layoutWidth? layout = some width →
      Read.Exactly (readLayout encoding counted layout) width := by
  induction layout with
  | leaf type => exact fun fixed => exactly_readLeaf encoding fixed
  | mapping fields ih =>
      exact fun fixed => (exactly_readFields (fun field member => ih field member) fixed).map _
  | sequence heads tail headsIh tailIh => exact nofun

/-- The buffers of a codec of some width: those of so many bytes are accepted, shorter ones are
truncated, longer ones have bytes left over, and no other ones are written. -/
structure ExactWidth (codec : Codec) (width : Nat) : Prop where
  accepts {bytes : List UInt8} : bytes.length = width → ∃ value, codec.decode bytes = .ok value
  truncates {bytes : List UInt8} : bytes.length < width → ∃ need ≤ width,
    codec.decode bytes = .error (.truncated need bytes.length) ∧
      (bytes.length < 2 ^ 63 → bytes.length < need)
  leaves {bytes : List UInt8} : width < bytes.length →
    codec.decode bytes = .error (.trailing (bytes.length - width))
  writes {value : Value} {bytes : List UInt8} :
    codec.encode value = .ok bytes → bytes.length = width

theorem ExactWidth.length_of_decode {codec : Codec} {width : Nat} (exactWidth : ExactWidth codec width)
    {bytes : List UInt8} {value : Value} (decoded : codec.decode bytes = .ok value) :
    bytes.length = width := by
  rcases Nat.lt_trichotomy bytes.length width with few | same | many
  · obtain ⟨need, -, failure, -⟩ := exactWidth.truncates few
    cases decoded.symm.trans failure
  · exact same
  · cases decoded.symm.trans (exactWidth.leaves many)

theorem exactWidth_plan (options : Options) {layout : Layout} {width : Nat}
    (fixed : layoutWidth? layout = some width) : ExactWidth ⟨layout.plan, options⟩ width := by
  have exactly : Read.Exactly (readLayout options.encoding false layout) width :=
    exactly_readLayout options.encoding layout fixed
  constructor
  case accepts =>
    intro bytes same
    have many : width ≤ (Reader.ofBytes bytes).remaining := Nat.le_of_eq same.symm
    obtain ⟨value, success⟩ := exactly.enough many
    refine ⟨value, decode_eq_ok_iff.mpr ⟨_, success, ?_⟩⟩
    exact List.drop_eq_nil_of_le (Nat.le_of_eq same)
  case truncates =>
    intro bytes few
    have short : (Reader.ofBytes bytes).remaining < width := few
    obtain ⟨need, after, failure, least, more⟩ := exactly.short short
    have whole : (Reader.ofBytes bytes).size = bytes.length := Nat.zero_add _
    rw [whole] at failure more
    refine ⟨need, by rwa [Reader.ofBytes, Nat.zero_add] at least, ?_, more⟩
    rw [decode_plan, failure]
  case leaves =>
    intro bytes many
    have enough : width ≤ (Reader.ofBytes bytes).remaining := Nat.le_of_lt many
    obtain ⟨value, success⟩ := exactly.enough enough
    have left : ((Reader.ofBytes bytes).skip width).remaining = bytes.length - width :=
      Reader.remaining_skip _ _
    have unexhausted : ((Reader.ofBytes bytes).skip width).isExhausted = false := by
      rw [Reader.isExhausted, List.isEmpty_eq_false_iff, ← List.length_pos_iff]
      rw [Reader.remaining] at left
      omega
    rw [decode_plan, success]
    simp only [unexhausted, left, Bool.false_eq_true, if_false]
  case writes =>
    intro value bytes encoded
    obtain ⟨-, written⟩ := encode_eq_ok_iff.mp encoded
    exact length_writeLayout_of_width layout fixed written

/-! ## Sizes of forms -/

/-- There is a form of so many bytes. -/
def Sized {α : Type} (form : List Piece → α → Prop) (size : Nat) : Prop :=
  ∃ pieces value, form pieces value ∧ (joined pieces).length = size

/-- There is a form of no more bytes than the limit and, unless there is a width, one that is a byte
longer. -/
def Stretches {α : Type} (form : List Piece → α → Prop) (width? : Option Nat) (limit : Nat) :
    Prop :=
  ∃ size ≤ limit, Sized form size ∧ (width? = none → Sized form (size + 1))

variable {encoding : TextEncoding}

/-- Zero is a group of its own, and also a group behind one that adds nothing. -/
theorem exists_groups_zero {size : Nat} (few : size = 1 ∨ size = 2) :
    ∃ pieces, GroupsForm pieces 0 ∧ (joined pieces).length = size := by
  have single : Denotes [0] 0 := ⟨by simp [Wire.Delimited], by decide, by decide⟩
  have double : Denotes [0x80, 0] 0 := ⟨by simp [Wire.Delimited], by decide, by decide⟩
  rcases few with rfl | rfl
  · exact ⟨_, ⟨[0], single, rfl⟩, rfl⟩
  · exact ⟨_, ⟨[0x80, 0], double, rfl⟩, rfl⟩

/-- A number in front is zero in both of its forms. -/
theorem stretches_of_zero {α : Type} {form : List Piece → α → Prop} (width? : Option Nat)
    (value : α) (behind : List Piece) (empty : joined behind = [])
    (zero : ∀ {pieces : List Piece}, GroupsForm pieces 0 → form (pieces ++ behind) value) :
    Stretches form width? 8 := by
  have sized : ∀ {size : Nat}, size = 1 ∨ size = 2 → Sized form size := by
    intro size few
    obtain ⟨pieces, groups, length⟩ := exists_groups_zero few
    exact ⟨_, value, zero groups, by rw [joined_append, empty, List.append_nil, length]⟩
  exact ⟨1, by decide, sized (.inl rfl), fun _ => sized (.inr rfl)⟩

theorem stretches_of_width {α : Type} {form : List Piece → α → Prop} {width : Nat}
    (sized : Sized form width) (short : width ≤ 8) : Stretches form (some width) 8 :=
  ⟨width, short, sized, nofun⟩

theorem sized_fixed (width : Nat) (result : Nat → Value) :
    Sized (fun pieces value => ∃ number, FixedForm width pieces number ∧ value = result number)
      width := by
  refine ⟨[.fixed (List.replicate width 0)], _,
    ⟨_, ⟨_, List.length_replicate, rfl, rfl⟩, rfl⟩, ?_⟩
  rw [joined_singleton, Piece.bytes, List.length_replicate]

theorem sized_datum {α : Type} (piece : α → Piece) (result : α → Value) (datum : α) :
    Sized (fun pieces value => ∃ found, pieces = [piece found] ∧ value = result found)
      (piece datum).bytes.length :=
  ⟨_, _, ⟨datum, rfl, rfl⟩, congrArg List.length (joined_singleton _)⟩

theorem textOfPayload_nil (encoding : TextEncoding) : Wire.textOfPayload encoding [] = .ok "" := by
  cases encoding <;> rfl

theorem stretches_leaf (encoding : TextEncoding) (type : Primitive) :
    Stretches (LeafForm encoding type) type.width? 8 := by
  cases type with
  | boolean => exact stretches_of_width (sized_datum .boolean _ 0) (by decide)
  | int8 | uint8 | int16 | uint16 | int32 | uint32 =>
      exact stretches_of_width (sized_fixed _ _) (by decide)
  | float32 => exact stretches_of_width (sized_datum .single _ ⟨0⟩) (by decide)
  | float64 => exact stretches_of_width (sized_datum .double _ ⟨0⟩) (by decide)
  | varuint =>
      refine stretches_of_zero _ (.integer 0) [] rfl fun groups => ?_
      rw [List.append_nil]
      exact ⟨0, groups, rfl⟩
  | varint =>
      refine stretches_of_zero _ (.integer 0) [] rfl fun groups => ?_
      rw [List.append_nil]
      exact ⟨0, groups, rfl⟩
  | string =>
      refine stretches_of_zero _ (.text "") [.text []] rfl ?_
      rintro _ ⟨length, denotes, rfl⟩
      exact ⟨"", ⟨length, [], denotes, textOfPayload_nil encoding, rfl⟩, rfl⟩
  | buffer =>
      refine stretches_of_zero _ (.bytes []) [.buffer []] rfl ?_
      rintro _ ⟨length, denotes, rfl⟩
      exact ⟨[], ⟨length, denotes, rfl⟩, rfl⟩

/-! ## Sizes of layouts -/

theorem stretches_fields {fields : List (String × Layout)}
    (each : ∀ field ∈ fields, ∀ slot, Stretches (LayoutForm encoding true field.2)
      (layoutWidth? field.2) (8 * totalSteps (field.2.stepsIn slot true))) :
    Stretches (FieldsForm encoding fields) (fieldsWidth? fields)
      (8 * totalSteps (stepsOfFields fields)) := by
  induction fields with
  | nil =>
      refine ⟨0, Nat.zero_le _, ⟨[], [], ⟨rfl, rfl⟩, rfl⟩, ?_⟩
      intro widthless
      cases widthless
  | cons field rest ih =>
      obtain ⟨first, others⟩ := List.forall_mem_cons.mp each
      obtain ⟨size, small, sized, longer⟩ := first (.field field.1)
      obtain ⟨sizeRest, smallRest, sizedRest, longerRest⟩ := ih others
      have together : ∀ {left right : Nat}, Sized (LayoutForm encoding true field.2) left →
          Sized (FieldsForm encoding rest) right →
            Sized (FieldsForm encoding (field :: rest)) (left + right) := by
        rintro left right ⟨pieces, value, form, rfl⟩ ⟨remaining, entries, forms, rfl⟩
        exact ⟨_, _, ⟨pieces, value, remaining, entries, form, forms, rfl, rfl⟩, by
          rw [joined_append, List.length_append]⟩
      refine ⟨size + sizeRest, ?_, together sized sizedRest, fun widthless => ?_⟩
      · rw [stepsOfFields, totalSteps_append]
        omega
      · rw [fieldsWidth?, Option.bind_eq_bind, Option.bind_eq_none_iff] at widthless
        cases own : layoutWidth? field.2 with
        | none =>
            rw [Nat.add_right_comm]
            exact together (longer own) sizedRest
        | some width =>
            have none := Option.bind_eq_none_iff.mp (widthless width own)
            rw [Nat.add_assoc]
            refine together sized (longerRest (Option.eq_none_iff_forall_ne_some.mpr ?_))
            intro others found
            cases none others found

theorem sized_heads {heads : List Layout} (index : Nat)
    (each : ∀ head ∈ heads, ∀ slot, Stretches (LayoutForm encoding true head)
      (layoutWidth? head) (8 * totalSteps (head.stepsIn slot true))) :
    ∃ size ≤ 8 * totalSteps (stepsOfHeads index heads), Sized (HeadsForm encoding heads) size := by
  induction heads generalizing index with
  | nil => exact ⟨0, Nat.zero_le _, [], [], ⟨rfl, rfl⟩, rfl⟩
  | cons head rest ih =>
      obtain ⟨first, others⟩ := List.forall_mem_cons.mp each
      obtain ⟨size, small, ⟨pieces, value, form, rfl⟩, -⟩ := first (.index index)
      obtain ⟨sizeRest, smallRest, remaining, items, forms, rfl⟩ := ih (index + 1) others
      refine ⟨_, ?_, _, _, ⟨pieces, value, remaining, items, form, forms, rfl, rfl⟩,
        congrArg List.length (joined_append _ _)⟩
      rw [List.length_append, stepsOfHeads, totalSteps_append]
      omega

/-- Inside a buffer a layout has a short form, and without a width another one of a different
length: one with a longer form of a number. -/
theorem stretches_layout (encoding : TextEncoding) (layout : Layout) :
    ∀ slot, Stretches (LayoutForm encoding true layout) (layoutWidth? layout)
      (8 * totalSteps (layout.stepsIn slot true)) := by
  induction layout with
  | leaf type => exact fun slot => stretches_leaf encoding type
  | mapping fields ih =>
      intro slot
      obtain ⟨size, small, sized, longer⟩ := stretches_fields ih
      have whole : ∀ {size : Nat}, Sized (FieldsForm encoding fields) size →
          Sized (LayoutForm encoding true (.mapping fields)) size := by
        rintro size ⟨pieces, entries, forms, length⟩
        exact ⟨pieces, _, ⟨entries, forms, rfl⟩, length⟩
      refine ⟨size, ?_, whole sized, fun widthless => whole (longer widthless)⟩
      rw [Layout.stepsIn, totalSteps, totalSteps_append]
      omega
  | sequence heads tail headsIh tailIh =>
      intro slot
      obtain ⟨size, small, first, items, forms, rfl⟩ := sized_heads 0 headsIh
      have counted : ∀ {width : Nat}, width = 1 ∨ width = 2 →
          Sized (LayoutForm encoding true (.sequence heads tail))
            ((joined first).length + width) := by
        intro width few
        obtain ⟨count, groups, rfl⟩ := exists_groups_zero few
        refine ⟨_, _, ⟨first, items, count, [], [], forms, groups, .nil, rfl, rfl⟩, ?_⟩
        rw [List.append_nil, joined_append, List.length_append]
      refine ⟨_, ?_, counted (.inl rfl), fun _ => counted (.inr rfl)⟩
      rw [Layout.stepsIn, totalSteps, totalSteps_append, Step.total]
      omega

/-- A root without a width has forms of different lengths: if it is a sequence, one without repeated
elements and one with a single element. -/
theorem exists_sizes_of_widthless (encoding : TextEncoding) {layout : Layout}
    (wellFormed : layout.WellFormed) (widthless : layoutWidth? layout = none) :
    ∃ short long, short < long ∧ long ≤ 8 * totalSteps layout.plan + 1 ∧
      Sized (LayoutForm encoding false layout) short ∧
        Sized (LayoutForm encoding false layout) long := by
  cases wellFormed with
  | leaf type =>
      obtain ⟨size, small, sized, longer⟩ := stretches_layout encoding (.leaf type) .whole
      exact ⟨size, size + 1, Nat.lt_succ_self size, Nat.succ_le_succ small, sized,
        longer widthless⟩
  | @mapping fields =>
      obtain ⟨size, small, sized, longer⟩ := stretches_layout encoding (.mapping fields) .whole
      exact ⟨size, size + 1, Nat.lt_succ_self size, Nat.succ_le_succ small, sized,
        longer widthless⟩
  | @sequence heads tail each last =>
      obtain ⟨size, small, first, items, forms, rfl⟩ :=
        sized_heads 0 fun head _ => stretches_layout encoding head
      obtain ⟨sizeTail, smallTail, ⟨pieces, value, form, rfl⟩, -⟩ :=
        stretches_layout encoding tail .whole
      have positive := List.length_pos_iff.mpr (LayoutForm.joined_ne_nil last form)
      refine ⟨_, (joined first).length + (joined pieces).length, Nat.lt_add_of_pos_right positive,
        ?_, ⟨first, _, ⟨first, items, [], [], [], forms, rfl, .nil, (List.append_nil _).symm, rfl⟩,
          rfl⟩, ⟨_, _, ⟨first, items, [], _, [value], forms, rfl, .cons form .nil, rfl, rfl⟩, ?_⟩⟩
      · rw [Layout.plan, Layout.stepsIn, totalSteps, totalSteps_append, totalSteps, Step.total,
          Step.total, total_asTail]
        omega
      · rw [List.nil_append, List.append_nil, joined_append, List.length_append]

theorem exists_decode_of_sized {options : Options} {layout : Layout}
    (wellFormed : layout.WellFormed) {size : Nat} (bounded : size < 2 ^ 63)
    (sized : Sized (LayoutForm options.encoding false layout) size) :
    ∃ bytes value, decode ⟨layout.plan, options⟩ bytes = .ok value ∧ bytes.length = size := by
  obtain ⟨pieces, value, form, rfl⟩ := sized
  exact ⟨_, value, (decode_eq_ok_iff_form wellFormed bounded).mpr ⟨pieces, form, rfl⟩, rfl⟩

theorem exists_decode_of_widthless {options : Options} {layout : Layout}
    (wellFormed : layout.WellFormed) (few : totalSteps layout.plan < 2 ^ 59)
    (widthless : layoutWidth? layout = none) :
    ∃ bytes value other found, bytes.length ≠ other.length ∧
      decode ⟨layout.plan, options⟩ bytes = .ok value ∧
        decode ⟨layout.plan, options⟩ other = .ok found := by
  obtain ⟨short, long, order, small, shortSized, longSized⟩ :=
    exists_sizes_of_widthless options.encoding wellFormed widthless
  obtain ⟨bytes, value, decoded, rfl⟩ :=
    exists_decode_of_sized wellFormed (by omega) shortSized
  obtain ⟨other, found, decodedOther, rfl⟩ :=
    exists_decode_of_sized wellFormed (by omega) longSized
  exact ⟨bytes, value, other, found, Nat.ne_of_lt order, decoded, decodedOther⟩

/-- The width of a plan is exact. A plan with a width accepts and writes the buffers of just so many
bytes; a plan without one accepts buffers of different lengths. So the width is the one length of
all accepted buffers. The bound is met by every plan in memory, where a step takes more than sixteen
bytes. -/
theorem exactWidth_of_compile {aliases : AliasTable} {definition : Definition} {plan : Plan}
    (compiled : definition.compile aliases = .ok plan) (options : Options) :
    (∀ width, plan.width? = some width → ExactWidth ⟨plan, options⟩ width) ∧
    (totalSteps plan < 2 ^ 59 →
      (plan.width? = none → ∃ bytes value other found, bytes.length ≠ other.length ∧
        decode ⟨plan, options⟩ bytes = .ok value ∧ decode ⟨plan, options⟩ other = .ok found) ∧
      ∀ width, plan.width? = some width ↔
        ∀ bytes value, decode ⟨plan, options⟩ bytes = .ok value → bytes.length = width) := by
  obtain ⟨layout, laidOut, rfl⟩ := Definition.compile_eq_ok_iff.mp compiled
  have wellFormed := Definition.layout_wellFormed laidOut
  have same : layout.plan.width? = layoutWidth? layout := width?_stepsIn layout .whole false
  rw [same]
  have exactly : ∀ width, layoutWidth? layout = some width →
      ExactWidth ⟨layout.plan, options⟩ width := fun width => exactWidth_plan options
  refine ⟨exactly, fun few => ⟨exists_decode_of_widthless wellFormed few, fun width => ?_⟩⟩
  constructor
  · intro fixed bytes value decoded
    exact (exactly width fixed).length_of_decode decoded
  · intro each
    cases own : layoutWidth? layout with
    | none =>
        obtain ⟨bytes, value, other, found, different, decoded, decodedOther⟩ :=
          exists_decode_of_widthless wellFormed few own
        exact absurd ((each _ _ decoded).trans (each _ _ decodedOther).symm) different
    | some found =>
        have zeros : (List.replicate found (0 : UInt8)).length = found := List.length_replicate
        obtain ⟨value, decoded⟩ := (exactly found own).accepts zeros
        rw [← each _ _ decoded, zeros]

/-- The first plan has a width and the second one has none. -/
theorem exactWidth_of_compile_pair :
    ExactWidth ⟨Layout.plan (.mapping [("x", .leaf .int16), ("y", .leaf .float64)]), .utf8, true⟩
      10 ∧
    ∃ bytes value other found, bytes.length ≠ other.length ∧
      decode ⟨Layout.plan (.mapping [("tags", .sequence [] (.leaf .boolean)), ("x", .leaf .int8)]),
        .hex, false⟩ bytes = .ok value ∧
      decode ⟨Layout.plan (.mapping [("tags", .sequence [] (.leaf .boolean)), ("x", .leaf .int8)]),
        .hex, false⟩ other = .ok found := by
  have point : (Definition.mapping [("x", .type "int16"), ("y", .type "float64")]).compile .initial =
      .ok (Layout.plan (.mapping [("x", .leaf .int16), ("y", .leaf .float64)])) := rfl
  have tagged : (Definition.mapping [("x", .type "int8"), ("tags", .sequence [.type "bool"])]).compile
      .initial = .ok (Layout.plan
        (.mapping [("tags", .sequence [] (.leaf .boolean)), ("x", .leaf .int8)])) := rfl
  have few : totalSteps (Layout.plan
      (.mapping [("tags", .sequence [] (.leaf .boolean)), ("x", .leaf .int8)])) < 2 ^ 59 := by
    decide
  exact ⟨(exactWidth_of_compile point ⟨.utf8, true⟩).1 10 rfl,
    ((exactWidth_of_compile tagged ⟨.hex, false⟩).2 few).1 rfl⟩

end Codec

end SchemaWire
