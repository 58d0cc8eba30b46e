import SchemaWire.Proofs.Codec.Acceptance
import SchemaWire.Proofs.Codec.Frames
import SchemaWire.Proofs.Codec.Guarding
import SchemaWire.Proofs.Codec.Paths
import SchemaWire.Proofs.Schema.Places
import SchemaWire.Proofs.Wire.Repetition

/-!
# Streams

A sequence at the root goes on to the end of the bytes. So more elements can be added to a buffer,
and a buffer can be cut after its heads and after every other element; cut elsewhere it is truncated
and asks for bytes that were cut off.
-/

set_option autoImplicit false

namespace SchemaWire.Codec

open Outcome
open Schema (AliasTable Definition Layout Plan)
open Wire (Read Reader)

/-! ## Cutting elements -/

/-- A form is read wherever it stands, and what comes after it is left. -/
theorem Accepts.ok_of_form {α : Type} {read : Read α} {form : List Piece → α → Prop}
    (accepts : Accepts anywhere read form) {pieces : List Piece} {value : α}
    (spelled : form pieces value) {position : Nat} {rest : List UInt8}
    (bounded : position + (joined pieces ++ rest).length < 2 ^ 63) :
    read ⟨position, joined pieces ++ rest⟩ = .ok value ⟨position + (joined pieces).length, rest⟩ := by
  refine (accepts.ok_iff ?_ trivial).mpr ⟨pieces, spelled, ⟨rfl, rfl⟩⟩
  exact bounded

/-- The beginning of a form asks for some of the bytes that are missing. -/
theorem cut_form {α : Type} {read : Read α} (isLocal : Read.Local read)
    {form : List Piece → α → Prop} (accepts : Accepts anywhere read form) {pieces : List Piece}
    {value : α} (spelled : form pieces value) {front more : List UInt8} (short : more ≠ [])
    (split : joined pieces = front ++ more) {position : Nat}
    (bounded : position + (joined pieces).length < 2 ^ 63) :
    ∃ need after, read ⟨position, front⟩ =
        .error (.truncated need (position + front.length)) after ∧
      position + front.length < need ∧ need ≤ position + (joined pieces).length := by
  rw [← List.append_nil (joined pieces)] at bounded
  have success := accepts.ok_of_form spelled bounded
  rw [List.append_nil, split] at success bounded
  rw [split]
  exact @Read.Local.cut _ _ isLocal ⟨position, front⟩ _ short bounded _ _ success rfl

/-- Where bytes can be cut that are read as elements to their end: reading a beginning of them from a
position on gives the first elements up to an end of theirs, and a truncation elsewhere. -/
structure ElementEnds (read : Read Value) (bytes : List UInt8) (items : List Value)
    (ends : Nat → Nat) : Prop where
  first : ends 0 = 0
  last : ends items.length = bytes.length
  ascending (early late : Nat) : early < late → late ≤ items.length → ends early < ends late
  at_end (front more : List UInt8) (position : Nat) : front ++ more = bytes →
    position + bytes.length < 2 ^ 63 → ∀ k ≤ items.length, front.length = ends k →
      Read.toEnd read ⟨position, front⟩ = .ok (items.take k) ⟨position + front.length, []⟩
  between (front more : List UInt8) (position : Nat) : front ++ more = bytes →
    position + bytes.length < 2 ^ 63 → (∀ k ≤ items.length, front.length ≠ ends k) →
      ∃ need after, Read.toEnd read ⟨position, front⟩ =
          .error (.truncated need (position + front.length)) after ∧
        position + front.length < need ∧ need ≤ position + bytes.length

/-- The ends of elements after a first one. -/
def endsAfter (size : Nat) (ends : Nat → Nat) : Nat → Nat
  | 0 => 0
  | k + 1 => size + ends k

/-- The beginning of two lists either ends in the first of them or goes on into the second. -/
theorem cut_cases {α : Type} {front more first second : List α}
    (split : front ++ more = first ++ second) :
    (∃ short, short ≠ [] ∧ first = front ++ short) ∨
      ∃ back, front = first ++ back ∧ back ++ more = second := by
  rcases List.append_eq_append_iff.mp split with ⟨short, inside, rest⟩ | ⟨back, beyond, rest⟩
  · by_cases whole : short = []
    · subst whole
      rw [List.append_nil] at inside
      exact .inr ⟨[], by rw [List.append_nil, inside], rest⟩
    · exact .inl ⟨short, whole, inside⟩
  · exact .inr ⟨back, beyond, rest.symm⟩

theorem length_lt_of_cut {α : Type} {front short whole : List α} (missing : short ≠ [])
    (split : whole = front ++ short) : front.length < whole.length := by
  have some := List.length_pos_iff.mpr missing
  rw [split, List.length_append]
  omega

section

variable {read : Read Value} {form : List Piece → Value → Prop} {pieces : List Piece} {item : Value}

theorem toEnd_of_empty (advances : Read.Advances read) (position : Nat) :
    Read.toEnd read ⟨position, []⟩ = .ok [] ⟨position, []⟩ := by
  rw [Read.toEnd_apply advances]
  rfl

theorem toEnd_of_form (advances : Read.Advances read) (accepts : Accepts anywhere read form)
    (spelled : form pieces item) (nonempty : joined pieces ≠ []) {position : Nat} {back : List UInt8}
    (bounded : position + (joined pieces ++ back).length < 2 ^ 63) :
    Read.toEnd read ⟨position, joined pieces ++ back⟩ =
      Read.prepend item (Read.toEnd read ⟨position + (joined pieces).length, back⟩) := by
  have unfinished : (joined pieces ++ back).isEmpty = false := by
    rw [List.isEmpty_eq_false_iff]
    exact List.append_ne_nil_of_left_ne_nil nonempty back
  rw [Read.toEnd_apply advances, accepts.ok_of_form spelled bounded]
  simp only [Reader.isExhausted, unfinished, Bool.false_eq_true, ↓reduceIte]

theorem toEnd_of_cut (advances : Read.Advances read) {position : Nat} {front : List UInt8}
    (some : front ≠ []) {e : Wire.DecodeError} {after : Reader}
    (failure : read ⟨position, front⟩ = .error e after) :
    Read.toEnd read ⟨position, front⟩ = .error e after := by
  have unfinished : front.isEmpty = false := List.isEmpty_eq_false_iff.mpr some
  rw [Read.toEnd_apply advances, failure]
  simp only [Reader.isExhausted, unfinished, Bool.false_eq_true, ↓reduceIte]

theorem ElementEnds.nil (advances : Read.Advances read) : ElementEnds read [] [] fun _ => 0 where
  first := rfl
  last := rfl
  ascending early late before inside := absurd (Nat.lt_of_lt_of_le before inside) (Nat.not_lt_zero _)
  at_end front more position split _ k _ _ := by
    obtain ⟨rfl, -⟩ := List.append_eq_nil_iff.mp split
    rw [List.take_nil]
    exact toEnd_of_empty advances position
  between front more position split _ elsewhere := by
    obtain ⟨rfl, -⟩ := List.append_eq_nil_iff.mp split
    exact absurd rfl (elsewhere 0 (Nat.le_refl _))

/-- A first element either is cut itself or stands before a cut of the others. -/
theorem ElementEnds.cons (isLocal : Read.Local read) (advances : Read.Advances read)
    (accepts : Accepts anywhere read form) (spelled : form pieces item)
    (nonempty : joined pieces ≠ []) {bytes : List UInt8} {items : List Value} {ends : Nat → Nat}
    (rest : ElementEnds read bytes items ends) :
    ElementEnds read (joined pieces ++ bytes) (item :: items)
      (endsAfter (joined pieces).length ends) where
  first := rfl
  last := by rw [List.length_cons, endsAfter, rest.last, List.length_append]
  ascending early late before inside := by
    have positive := List.length_pos_iff.mpr nonempty
    cases late with
    | zero => cases before
    | succ late =>
        cases early with
        | zero => exact Nat.add_pos_left positive _
        | succ early =>
            exact Nat.add_lt_add_left (rest.ascending early late (Nat.lt_of_succ_lt_succ before)
              (Nat.le_of_succ_le_succ inside)) _
  at_end front more position split bounded k inside here := by
    cases k with
    | zero =>
        cases List.length_eq_zero_iff.mp here
        exact toEnd_of_empty advances position
    | succ k =>
        rw [endsAfter] at here
        rcases cut_cases split with ⟨short, missing, whole⟩ | ⟨back, whole, others⟩
        · have shorter := length_lt_of_cut missing whole
          omega
        · subst whole
          rw [List.length_append] at here bounded ⊢
          have size := congrArg List.length others
          rw [List.length_append] at size
          have found := rest.at_end back more (position + (joined pieces).length) others (by omega) k
            (Nat.le_of_succ_le_succ inside) (by omega)
          rw [toEnd_of_form advances accepts spelled nonempty (by rw [List.length_append]; omega),
            found, Nat.add_assoc]
          rfl
  between front more position split bounded elsewhere := by
    have some : front ≠ [] := by
      intro empty
      exact elsewhere 0 (Nat.zero_le _) (List.length_eq_zero_iff.mpr empty)
    rcases cut_cases split with ⟨short, missing, whole⟩ | ⟨back, whole, others⟩
    · rw [List.length_append] at bounded ⊢
      obtain ⟨need, after, failure, small, enough⟩ :=
        cut_form isLocal accepts spelled missing whole (by omega : position + _ < 2 ^ 63)
      exact ⟨need, after, toEnd_of_cut advances some failure, small, by omega⟩
    · subst whole
      rw [List.length_append] at bounded elsewhere ⊢
      have size := congrArg List.length others
      rw [List.length_append] at size
      obtain ⟨need, after, failure, small, enough⟩ :=
        rest.between back more (position + (joined pieces).length) others (by omega)
          (fun k inside here => elsewhere (k + 1) (Nat.succ_le_succ inside) (by rw [endsAfter, here]))
      rw [toEnd_of_form advances accepts spelled nonempty (by rw [List.length_append]; omega), failure,
        Nat.add_assoc]
      exact ⟨need, after, rfl, by omega, by rw [List.length_append]; omega⟩

theorem exists_elementEnds (isLocal : Read.Local read) (advances : Read.Advances read)
    (accepts : Accepts anywhere read form)
    (nonempty : ∀ {pieces value}, form pieces value → joined pieces ≠ []) {items : List Value}
    (spelled : ItemsForm form pieces items) :
    ∃ ends, ElementEnds read (joined pieces) items ends := by
  induction spelled with
  | nil => exact ⟨_, .nil advances⟩
  | cons head rest ih =>
      obtain ⟨ends, others⟩ := ih
      rw [joined_append]
      exact ⟨_, others.cons isLocal advances accepts head (nonempty head)⟩

end

/-! ## Cutting streams -/

/-- Where a buffer can be cut that is decoded as a sequence: behind so many heads, and behind each of
the other items. -/
structure Boundaries (codec : Codec) (heads count : Nat) (items : List Value) (bytes : List UInt8)
    (ends : Nat → Nat) : Prop where
  last : ends count = bytes.length
  ascending (early late : Nat) : early < late → late ≤ count → ends early < ends late
  at_end (front : List UInt8) : front <+: bytes → ∀ k ≤ count, front.length = ends k →
    decode codec front = .ok (.sequence (items.take (heads + k)))
  between (front : List UInt8) : front <+: bytes → (∀ k ≤ count, front.length ≠ ends k) →
    ∃ need, decode codec front = .error (.truncated need front.length) ∧ front.length < need ∧
      need ≤ bytes.length

section

variable {options : Options} {heads : List Layout} {tail : Layout}

theorem readRoot_eq (encoding : TextEncoding) (heads : List Layout) (tail : Layout) :
    readLayout encoding false (.sequence heads tail) = (do
      let first ← readHeads encoding heads
      let others ← Read.toEnd (readLayout encoding true tail)
      return .sequence (first ++ others)) := by
  simp only [readLayout, Bool.false_eq_true, ↓reduceIte]

theorem decode_of_heads_error {bytes : List UInt8} {e : Wire.DecodeError} {after : Reader}
    (failure : readHeads options.encoding heads ⟨0, bytes⟩ = .error e after) :
    decode ⟨(Layout.sequence heads tail).plan, options⟩ bytes = .error e := by
  rw [decode_plan, readRoot_eq, Reader.ofBytes, Read.bind_apply, failure]

theorem decode_of_items_error {bytes : List UInt8} {found : List Value} {middle after : Reader}
    {e : Wire.DecodeError}
    (headsRead : readHeads options.encoding heads ⟨0, bytes⟩ = .ok found middle)
    (failure : Read.toEnd (readLayout options.encoding true tail) middle = .error e after) :
    decode ⟨(Layout.sequence heads tail).plan, options⟩ bytes = .error e := by
  rw [decode_plan, readRoot_eq, Reader.ofBytes, Read.bind_apply, headsRead]
  dsimp only
  rw [Read.bind_apply, failure]

theorem decode_of_items {bytes : List UInt8} {found others : List Value} {middle after : Reader}
    (headsRead : readHeads options.encoding heads ⟨0, bytes⟩ = .ok found middle)
    (repeated : Read.toEnd (readLayout options.encoding true tail) middle = .ok others after)
    (exhausted : after.rest = []) :
    decode ⟨(Layout.sequence heads tail).plan, options⟩ bytes = .ok (.sequence (found ++ others)) := by
  refine decode_eq_ok_iff.mpr ⟨after, ?_, exhausted⟩
  rw [readRoot_eq, Read.bind_eq_ok_iff]
  exact ⟨found, middle, headsRead, Read.bind_pure_eq_ok_iff.mpr ⟨others, repeated, rfl⟩⟩

/-- A stream is cut either in its heads or behind them, where its other items are cut. -/
theorem boundaries_of_elementEnds (headsLocal : Read.Local (readHeads options.encoding heads))
    (headsAccept : Accepts anywhere (readHeads options.encoding heads)
      (HeadsForm options.encoding heads)) {first : List Piece} {found : List Value}
    (headsForm : HeadsForm options.encoding heads first found) {bytes : List UInt8}
    {others : List Value} {ends : Nat → Nat}
    (elements : ElementEnds (readLayout options.encoding true tail) bytes others ends)
    (bounded : (joined first ++ bytes).length < 2 ^ 63) :
    Boundaries ⟨(Layout.sequence heads tail).plan, options⟩ heads.length others.length
      (found ++ others) (joined first ++ bytes) fun k => (joined first).length + ends k where
  last := by rw [elements.last, List.length_append]
  ascending early late before inside :=
    Nat.add_lt_add_left (elements.ascending early late before inside) _
  at_end front begins k inside here := by
    obtain ⟨more, split⟩ := begins
    rcases cut_cases split with ⟨short, missing, whole⟩ | ⟨back, whole, rest⟩
    · have shorter := length_lt_of_cut missing whole
      omega
    · subst whole rest
      simp only [List.length_append] at here bounded
      have headsRead : readHeads options.encoding heads ⟨0, joined first ++ back⟩ =
          .ok found ⟨0 + (joined first).length, back⟩ :=
        headsAccept.ok_of_form headsForm (by rw [List.length_append]; omega)
      have repeated := elements.at_end back more (0 + (joined first).length) rfl
        (by rw [List.length_append]; omega) k inside (by omega)
      rw [decode_of_items headsRead repeated rfl, ← headsForm.length_eq, List.take_length_add_append]
  between front begins elsewhere := by
    obtain ⟨more, split⟩ := begins
    rw [List.length_append] at bounded ⊢
    rcases cut_cases split with ⟨short, missing, whole⟩ | ⟨back, whole, rest⟩
    · obtain ⟨need, after, failure, small, enough⟩ :=
        cut_form headsLocal headsAccept headsForm missing whole (by omega : 0 + _ < 2 ^ 63)
      rw [Nat.zero_add] at failure small enough
      exact ⟨need, decode_of_heads_error failure, small, by omega⟩
    · subst whole rest
      simp only [List.length_append] at elsewhere bounded ⊢
      have headsRead : readHeads options.encoding heads ⟨0, joined first ++ back⟩ =
          .ok found ⟨0 + (joined first).length, back⟩ :=
        headsAccept.ok_of_form headsForm (by rw [List.length_append]; omega)
      obtain ⟨need, after, failure, small, enough⟩ := elements.between back more
        (0 + (joined first).length) rfl (by rw [List.length_append]; omega)
        (fun k inside here => elsewhere k inside (by omega))
      rw [Nat.zero_add] at headsRead failure small enough
      rw [List.length_append] at enough
      exact ⟨need, decode_of_items_error headsRead failure, small, by omega⟩

theorem exists_boundaries (wellFormed : (Layout.sequence heads tail).WellFormed)
    {bytes : List UInt8} (bounded : bytes.length < 2 ^ 63) {items : List Value} {count : Nat}
    (decoded : decode ⟨(Layout.sequence heads tail).plan, options⟩ bytes = .ok (.sequence items))
    (length : items.length = heads.length + count) :
    ∃ ends, Boundaries ⟨(Layout.sequence heads tail).plan, options⟩ heads.length count items bytes
      ends := by
  obtain ⟨pieces, form, rfl⟩ := (decode_eq_ok_iff_form wellFormed bounded).mp decoded
  obtain ⟨first, found, _, rest, others, headsForm, rfl, itemsForm, rfl, same⟩ := form
  cases same
  cases wellFormed with
  | sequence each last =>
      rw [List.length_append, headsForm.length_eq, Nat.add_left_cancel_iff] at length
      subst length
      have headsLocal := local_readHeads fun (head : Layout) (_ : head ∈ heads) =>
        local_readLayout options.encoding head
      have headsAccept := accepts_readHeads fun head member =>
        accepts_readLayout options.encoding (each head member)
      obtain ⟨ends, elements⟩ := exists_elementEnds (local_readLayout options.encoding tail)
        (advances_readLayout options.encoding last) (accepts_readLayout options.encoding last)
        (LayoutForm.joined_ne_nil last) itemsForm
      rw [List.nil_append, joined_append] at bounded ⊢
      exact ⟨_, boundaries_of_elementEnds headsLocal headsAccept headsForm elements bounded⟩

/-! ## Joining streams -/

theorem ItemsForm.append {form : List Piece → Value → Prop} {first second : List Piece}
    {items others : List Value} (left : ItemsForm form first items)
    (right : ItemsForm form second others) : ItemsForm form (first ++ second) (items ++ others) := by
  induction left with
  | nil => exact right
  | cons head rest ih =>
      rw [List.append_assoc, List.cons_append]
      exact .cons head ih

theorem decode_append (wellFormed : (Layout.sequence heads tail).WellFormed)
    {first second : List UInt8} (bounded : (first ++ second).length < 2 ^ 63)
    {items others : List Value}
    (decoded : decode ⟨(Layout.sequence heads tail).plan, options⟩ first = .ok (.sequence items))
    (rest : decode ⟨(Layout.sequence [] tail).plan, options⟩ second = .ok (.sequence others)) :
    decode ⟨(Layout.sequence heads tail).plan, options⟩ (first ++ second) =
      .ok (.sequence (items ++ others)) := by
  have size : (first ++ second).length = first.length + second.length := List.length_append
  obtain ⟨pieces, form, rfl⟩ := (decode_eq_ok_iff_form wellFormed (by omega)).mp decoded
  obtain ⟨more, restForm, rfl⟩ := (decode_eq_ok_iff_form wellFormed.withoutHeads (by omega)).mp rest
  obtain ⟨start, found, _, middle, elements, headsForm, rfl, itemsForm, rfl, same⟩ := form
  obtain ⟨_, _, _, _, lastElements, ⟨rfl, rfl⟩, rfl, lastForm, rfl, lastSame⟩ := restForm
  cases same
  cases lastSame
  refine (decode_eq_ok_iff_form wellFormed bounded).mpr ⟨start ++ (middle ++ more), ?form, ?bytes⟩
  case form =>
    exact ⟨start, found, [], middle ++ more, elements ++ lastElements, headsForm, rfl,
      itemsForm.append lastForm, rfl, by rw [List.append_assoc, List.nil_append]⟩
  case bytes =>
    simp only [joined_append, List.append_assoc, List.nil_append]

/-! ## Decoding and encoding streams -/

theorem exists_items_of_decode (wellFormed : (Layout.sequence heads tail).WellFormed)
    {bytes : List UInt8} {value : Value}
    (decoded : decode ⟨(Layout.sequence heads tail).plan, options⟩ bytes = .ok value) :
    ∃ items, value = .sequence items ∧ heads.length ≤ items.length := by
  cases canonical_of_decode wellFormed decoded with
  | sequence long each rest => exact ⟨_, rfl, long⟩

/-- A sequence at the root leaves no byte. -/
theorem decode_ne_trailing (wellFormed : (Layout.sequence heads tail).WellFormed)
    (bytes : List UInt8) (remaining : Nat) :
    decode ⟨(Layout.sequence heads tail).plan, options⟩ bytes ≠ .error (.trailing remaining) := by
  intro failure
  rw [decode_plan] at failure
  cases outcome : readLayout options.encoding false (.sequence heads tail) (.ofBytes bytes) with
  | ok value next =>
      have exhausted : next.isExhausted = true := by
        rw [readRoot_eq] at outcome
        obtain ⟨first, middle, -, success⟩ := Read.bind_eq_ok_iff.mp outcome
        obtain ⟨others, repeated, -⟩ := Read.bind_pure_eq_ok_iff.mp success
        exact Read.exhausted_of_toEnd (advances_readLayout options.encoding wellFormed.tail) repeated
      simp only [outcome, exhausted, ↓reduceIte] at failure
      cases failure
  | error e next =>
      rw [outcome] at failure
      cases failure
      exact (ensures_readLayout options.encoding wellFormed false).error outcome

theorem encode_append_eq_ok_iff (wellFormed : (Layout.sequence heads tail).WellFormed)
    {items others : List Value} (long : heads.length ≤ items.length) {bytes : List UInt8} :
    encode ⟨(Layout.sequence heads tail).plan, options⟩ (.sequence (items ++ others)) = .ok bytes ↔
      ∃ first second,
        encode ⟨(Layout.sequence heads tail).plan, options⟩ (.sequence items) = .ok first ∧
        encode ⟨(Layout.sequence [] tail).plan, options⟩ (.sequence others) = .ok second ∧
          first ++ second = bytes := by
  simp only [encode_eq_ok_iff_guarded wellFormed,
    encode_eq_ok_iff_guarded wellFormed.withoutHeads,
    writeRoot_append_eq_ok_iff long, guarded_append_iff long]
  constructor
  · intro ⟨⟨first, second, written, restWritten, same⟩, guarded⟩
    exact ⟨first, second, ⟨written, fun strict => (guarded strict).1⟩,
      ⟨restWritten, fun strict => (guarded strict).2⟩, same⟩
  · intro ⟨first, second, ⟨written, guarded⟩, ⟨restWritten, restGuarded⟩, same⟩
    exact ⟨⟨first, second, written, restWritten, same⟩,
      fun strict => ⟨guarded strict, restGuarded strict⟩⟩

end

/-- Sequences at the root are streams: buffers are joined by joining their items, and a buffer is cut
between items. The bound on buffers is that of every slice of bytes in memory. -/
theorem stream_of_compile {aliases : AliasTable} {heads : List Definition} {last : Definition}
    {plan : Plan} (compiled : (Definition.sequence (heads ++ [last])).compile aliases = .ok plan)
    (options : Options) :
    ∃ rest, (Definition.sequence [last]).compile aliases = .ok rest ∧
      (∀ bytes value, decode ⟨plan, options⟩ bytes = .ok value →
        ∃ items, value = .sequence items ∧ heads.length ≤ items.length) ∧
      (∀ first second items others, (first ++ second).length < 2 ^ 63 →
        decode ⟨plan, options⟩ first = .ok (.sequence items) →
          decode ⟨rest, options⟩ second = .ok (.sequence others) →
            decode ⟨plan, options⟩ (first ++ second) = .ok (.sequence (items ++ others))) ∧
      (∀ bytes items count, bytes.length < 2 ^ 63 →
        decode ⟨plan, options⟩ bytes = .ok (.sequence items) → items.length = heads.length + count →
          ∃ ends, Boundaries ⟨plan, options⟩ heads.length count items bytes ends) ∧
      (∀ items others bytes, heads.length ≤ items.length →
        (encode ⟨plan, options⟩ (.sequence (items ++ others)) = .ok bytes ↔
          ∃ first second, encode ⟨plan, options⟩ (.sequence items) = .ok first ∧
            encode ⟨rest, options⟩ (.sequence others) = .ok second ∧ first ++ second = bytes)) ∧
      ∀ bytes remaining, decode ⟨plan, options⟩ bytes ≠ .error (.trailing remaining) := by
  obtain ⟨layout, laidOut, rfl⟩ := Definition.compile_eq_ok_iff.mp compiled
  obtain ⟨headLayouts, tail, rfl, length, alone⟩ := Schema.layout_sequence_append laidOut
  have wellFormed := Definition.layout_wellFormed laidOut
  rw [← length]
  refine ⟨_, Definition.compile_eq_ok_iff.mpr ⟨_, alone, rfl⟩, ?items, ?joined, ?cut, ?encoded,
    decode_ne_trailing wellFormed⟩
  case items =>
    intro bytes value decoded
    exact exists_items_of_decode wellFormed decoded
  case joined =>
    intro first second items others bounded decoded rest
    exact decode_append wellFormed bounded decoded rest
  case cut =>
    intro bytes items count bounded decoded size
    exact exists_boundaries wellFormed bounded decoded size
  case encoded =>
    intro items others bytes long
    exact encode_append_eq_ok_iff wellFormed long

theorem stream_of_compile_words :
    decode ⟨Layout.plan (.sequence [.leaf .uint8] (.leaf .string)), .utf8, true⟩
        [7, 1, 97, 2, 98, 99] = .ok (.sequence [.integer 7, .text "a", .text "bc"]) ∧
      ∃ ends, Boundaries ⟨Layout.plan (.sequence [.leaf .uint8] (.leaf .string)), .utf8, true⟩ 1 2
        [.integer 7, .text "a", .text "bc"] [7, 1, 97, 2, 98, 99] ends := by
  have compiled : (Definition.sequence ([.type "uint8"] ++ [.type "string"])).compile .initial =
      .ok (Layout.plan (.sequence [.leaf .uint8] (.leaf .string))) := rfl
  have first : decode ⟨Layout.plan (.sequence [.leaf .uint8] (.leaf .string)), .utf8, true⟩
      [7, 1, 97] = .ok (.sequence [.integer 7, .text "a"]) := rfl
  have second : decode ⟨Layout.plan (.sequence [] (.leaf .string)), .utf8, true⟩ [2, 98, 99] =
      .ok (.sequence [.text "bc"]) := rfl
  obtain ⟨rest, alone, -, joined, cut, -⟩ := stream_of_compile compiled ⟨.utf8, true⟩
  cases alone
  have whole := joined _ _ _ _ (by decide) first second
  exact ⟨whole, cut _ _ 2 (by decide) whole rfl⟩

end SchemaWire.Codec
