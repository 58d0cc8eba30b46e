import SchemaWire.Proofs.Outcome
import SchemaWire.Proofs.Wire.Reading
import SchemaWire.Proofs.Wire.Writing

/-!
# Items one after another, written and read

Writing and reading run in step: whatever has been written before and comes after, the read that
belongs to an item takes just its bytes and finds what was written. An item that cannot be written
has no read that belongs to it and no bytes that a read could meet.
-/

set_option autoImplicit false

namespace SchemaWire.Wire

/-- What is read where an item has been written. -/
def Item.canonical : Item → Item
  | .text encoding content => .text encoding (canonicalText encoding content)
  | item => item

/-- The bytes that an item leaves behind, none where it cannot be written. -/
def Item.contribution (item : Item) : List UInt8 :=
  item.bytes.toOption.getD []

/-- The items that can be written. -/
def accepted (items : List Item) : List Item :=
  items.filter fun item => item.bytes.isOk

/-- The reads that belong to the items that can be written. -/
def matchingReads (items : List Item) : List Request :=
  (accepted items).map Item.request

/-- The reader after reads one after another, failing ones included. -/
def Reader.afterAll (reader : Reader) (requests : List Request) : Reader :=
  requests.foldl (fun before request => (request.perform before).2) reader

/-! ## Writing -/

theorem Item.isText_of_error {item : Item} {reason : UnwritableText}
    (unwritable : item.bytes = .error reason) :
    ∃ encoding content, item = .text encoding content := by
  cases item with
  | text encoding content => exact ⟨encoding, content, rfl⟩
  | _ => cases unwritable

theorem accepted_cons_of_ok {item : Item} {bytes : List UInt8} (written : item.bytes = .ok bytes)
    (rest : List Item) : accepted (item :: rest) = item :: accepted rest := by
  rw [accepted, List.filter_cons_of_pos (by rw [written]; rfl), accepted]

theorem accepted_cons_of_error {item : Item} {reason : UnwritableText}
    (unwritable : item.bytes = .error reason) (rest : List Item) :
    accepted (item :: rest) = accepted rest := by
  rw [accepted, List.filter_cons_of_neg (by rw [unwritable]; exact Bool.false_ne_true), accepted]

theorem Item.contribution_of_ok {item : Item} {bytes : List UInt8}
    (written : item.bytes = .ok bytes) : item.contribution = bytes := by
  rw [contribution, written]
  rfl

theorem Item.contribution_of_error {item : Item} {reason : UnwritableText}
    (unwritable : item.bytes = .error reason) : item.contribution = [] := by
  rw [contribution, unwritable]
  rfl

@[simp] theorem Written.bytes_push (written : Written) (item : Item) :
    (written.push item).bytes = written.bytes ++ item.contribution := by
  cases outcome : item.bytes with
  | ok bytes => simp [push, item.appends written.bytes, outcome, item.contribution_of_ok outcome]
  | error reason =>
      simp [push, item.appends written.bytes, outcome, item.contribution_of_error outcome]

/-- The outcome of an item is the number of bytes after it, unless it cannot be written. -/
@[simp] theorem Written.outcomes_push (written : Written) (item : Item) :
    (written.push item).outcomes =
      written.outcomes ++ [item.bytes.map fun _ => (written.push item).bytes.length] := by
  cases outcome : item.bytes with
  | ok bytes => simp [push, item.appends written.bytes, outcome, Except.map]
  | error reason => simp [push, item.appends written.bytes, outcome, Except.map]

theorem bytes_foldl_push (items : List Item) (written : Written) :
    (items.foldl Written.push written).bytes =
      written.bytes ++ items.flatMap Item.contribution := by
  induction items generalizing written with
  | nil => simp
  | cons item rest ih => simp [ih]

theorem bytes_writeItems (items : List Item) :
    (writeItems items).bytes = items.flatMap Item.contribution :=
  bytes_foldl_push items _

theorem writeItems_concat (items : List Item) (item : Item) :
    writeItems (items ++ [item]) = (writeItems items).push item := by
  rw [writeItems, List.foldl_append, List.foldl_cons, List.foldl_nil, writeItems]

/-- Where items end that can be written, counted from the bytes before the first one. -/
def ends (start : Nat) : List Item → List (Except UnwritableText Nat)
  | [] => []
  | item :: rest =>
    item.bytes.map (fun _ => start + item.contribution.length) ::
      ends (start + item.contribution.length) rest

theorem outcomes_foldl_push (items : List Item) (written : Written) :
    (items.foldl Written.push written).outcomes =
      written.outcomes ++ ends written.bytes.length items := by
  induction items generalizing written with
  | nil => simp [ends]
  | cons item rest ih => simp [ih, ends]

theorem outcomes_writeItems (items : List Item) :
    (writeItems items).outcomes = ends 0 items :=
  outcomes_foldl_push items _

theorem getElem?_ends (before : List Item) (item : Item) (after : List Item) (start : Nat) :
    (ends start (before ++ item :: after))[before.length]? =
      some (item.bytes.map fun _ =>
        start + ((before ++ [item]).flatMap Item.contribution).length) := by
  induction before generalizing start with
  | nil => simp [ends]
  | cons first before ih => simp [ends, ih, Nat.add_assoc]

/-! ## Reading -/

section Reading

variable {item : Item} {items : List Item} {bytes : List UInt8} {reader next : Reader}

theorem Read.fixed_of_passes {width value : Nat} (small : value < 256 ^ width)
    (passes : reader.Passes (bigEndian width value) next) :
    fixed width reader = .ok value next := by
  refine fixed_eq_ok_iff.mpr ⟨_, length_bigEndian width value, ?_, passes⟩
  rw [ofBigEndian_bigEndian, Nat.mod_eq_of_lt small]

/-- A text that was written is read where it stands, whatever follows. -/
theorem Read.text_of_written {encoding : TextEncoding} {content : String}
    (converted : payload encoding content = .ok bytes)
    (passes : reader.Passes (Wire.prefixed bytes) next) (inside : next.position < 2 ^ 63) :
    text encoding reader = .ok (canonicalText encoding content) next := by
  have position := passes.position
  have length : (Wire.prefixed bytes).length = _ + bytes.length := List.length_append
  have short : bytes.length < 2 ^ 63 := by omega
  rw [text_of_passes (varuintBytes_denotes _) passes short (by omega),
    textOfPayload_payload converted]
  rfl

/-- The read that belongs to an item passes over its bytes and finds the item, however the buffer
goes on behind them. -/
theorem Item.read_request (written : item.bytes = .ok bytes) (passes : reader.Passes bytes next)
    (bounded : reader.size < 2 ^ 63) :
    item.request.read reader = .ok (.item item.canonical) next := by
  cases item with
  | uint8 value =>
      cases written
      have byte : Read.byte reader = .ok value next := Read.bind_pure_eq_ok_iff.mpr
        ⟨value.toNat, Read.fixed_of_passes value.toNat_lt passes, UInt8.ofNat_toNat⟩
      exact Read.bind_pure_eq_ok_iff.mpr ⟨value, byte, rfl⟩
  | uint16 value =>
      cases written
      refine Read.bind_pure_eq_ok_iff.mpr
        ⟨value.toNat, Read.fixed_of_passes value.toNat_lt passes, ?_⟩
      rw [UInt16.ofNat_toNat]
      rfl
  | uint32 value =>
      cases written
      refine Read.bind_pure_eq_ok_iff.mpr
        ⟨value.toNat, Read.fixed_of_passes value.toNat_lt passes, ?_⟩
      rw [UInt32.ofNat_toNat]
      rfl
  | binary32 value =>
      cases written
      exact Read.bind_pure_eq_ok_iff.mpr ⟨value, Read.binary32_eq_ok_iff.mpr passes, rfl⟩
  | binary64 value =>
      cases written
      exact Read.bind_pure_eq_ok_iff.mpr ⟨value, Read.binary64_eq_ok_iff.mpr passes, rfl⟩
  | varuint value =>
      cases written
      exact Read.bind_pure_eq_ok_iff.mpr ⟨value, Read.varuint_of_passes passes, rfl⟩
  | varint value =>
      cases written
      exact Read.bind_pure_eq_ok_iff.mpr ⟨value, Read.varint_of_passes passes, rfl⟩
  | raw content =>
      cases written
      exact Read.bind_pure_eq_ok_iff.mpr ⟨content, Read.take_eq_ok_iff.mpr ⟨rfl, passes⟩, rfl⟩
  | text encoding content =>
      obtain ⟨payload, converted, rfl⟩ := textBytes_eq_ok_iff.mp written
      have inside : next.position < 2 ^ 63 := by
        have total := passes.length_le.1
        omega
      exact Read.bind_pure_eq_ok_iff.mpr
        ⟨canonicalText encoding content, Read.text_of_written converted passes inside, rfl⟩

theorem Item.perform_request (written : item.bytes = .ok bytes) (passes : reader.Passes bytes next)
    (bounded : reader.size < 2 ^ 63) :
    item.request.perform reader = (.ok (.item item.canonical), next) := by
  have run : item.request.read.run reader = .ok (.item item.canonical) next :=
    item.read_request written passes bounded
  rw [Request.perform, run]

/-- A run of the reads that belong to items, over what these leave behind: every read finds its
item and ends where the item does, and the last one ends where the bytes do. -/
theorem performAll_matchingReads (passes : reader.Passes (items.flatMap Item.contribution) next)
    (bounded : reader.size < 2 ^ 63) :
    (performAll reader (matchingReads items)).map Prod.fst =
        (accepted items).map (fun item => .ok (.item item.canonical)) ∧
      (performAll reader (matchingReads items)).map (fun performed => .ok performed.2.position) =
        (ends reader.position items).filter Except.isOk ∧
      reader.afterAll (matchingReads items) = next := by
  induction items generalizing reader with
  | nil => exact ⟨rfl, rfl, (Reader.Passes.nil_iff.mp passes).symm⟩
  | cons item rest ih =>
      obtain ⟨middle, first, others⟩ := Reader.Passes.append_iff.mp passes
      have within : middle.size < 2 ^ 63 := by rwa [first.size_eq]
      obtain ⟨found, positions, last⟩ := ih others within
      rw [first.position] at positions
      cases outcome : item.bytes with
      | error reason =>
          -- Nothing was written, so the reads of the other items start at this very reader.
          rw [item.contribution_of_error outcome] at first
          obtain rfl := Reader.Passes.nil_iff.mp first
          have reads : matchingReads (item :: rest) = matchingReads rest := by
            rw [matchingReads, accepted_cons_of_error outcome, matchingReads]
          rw [reads, accepted_cons_of_error outcome]
          refine ⟨found, ?_, last⟩
          rw [positions, ends, outcome, item.contribution_of_error outcome]
          exact (List.filter_cons_of_neg Bool.false_ne_true).symm
      | ok bytes =>
          rw [item.contribution_of_ok outcome] at first
          have reads : matchingReads (item :: rest) = item.request :: matchingReads rest := by
            rw [matchingReads, accepted_cons_of_ok outcome, List.map_cons, matchingReads]
          have performed := item.perform_request outcome first bounded
          rw [reads, accepted_cons_of_ok outcome, performAll, performed]
          refine ⟨?found, ?positions, ?last⟩
          case found => rw [List.map_cons, found, List.map_cons]
          case positions =>
            rw [List.map_cons, positions, first.position, ends, outcome,
              item.contribution_of_ok outcome]
            exact (List.filter_cons_of_pos rfl).symm
          case last => rwa [Reader.afterAll, List.foldl_cons, performed]

end Reading

/-- Writing and reading are dual over whole sequences: over the bytes that a sequence of items
leaves behind, the reads that belong to the items that were written find every one of them and
stand after each where the writing stood, and the last one leaves nothing. Only text can fail to
be written, and it leaves no byte. Buffers are shorter than 2^63 bytes. -/
theorem reads_of_writeItems (items : List Item)
    (bounded : (writeItems items).bytes.length < 2 ^ 63) :
    let reader := Reader.ofBytes (writeItems items).bytes
    let reads := performAll reader (matchingReads items)
    reads.map Prod.fst = (accepted items).map (fun item => .ok (.item item.canonical)) ∧
      reads.map (fun performed => .ok performed.2.position) =
        (writeItems items).outcomes.filter Except.isOk ∧
      (reader.afterAll (matchingReads items)).isExhausted = true ∧
      ∀ before item after, items = before ++ item :: after →
        (writeItems items).outcomes[before.length]? =
            some (item.bytes.map fun _ => (writeItems (before ++ [item])).bytes.length) ∧
          ∀ reason, item.bytes = .error reason →
            (∃ encoding content, item = .text encoding content) ∧
              (writeItems (before ++ [item])).bytes = (writeItems before).bytes := by
  intro reader reads
  have passes : reader.Passes (items.flatMap Item.contribution)
      ⟨(writeItems items).bytes.length, []⟩ :=
    ⟨by simp [reader, Reader.ofBytes, bytes_writeItems],
      by simp [reader, Reader.ofBytes, bytes_writeItems]⟩
  have small : reader.size < 2 ^ 63 := by
    simpa [reader, Reader.size, Reader.ofBytes, Reader.remaining] using bounded
  obtain ⟨found, positions, last⟩ := performAll_matchingReads passes small
  refine ⟨found, ?positions, ?exhausted, ?steps⟩
  case positions => rw [outcomes_writeItems]; exact positions
  case exhausted => rw [last]; rfl
  case steps =>
    intro before item after split
    refine ⟨?length, ?unwritten⟩
    case length =>
      rw [split, outcomes_writeItems, getElem?_ends, bytes_writeItems, Nat.zero_add]
    case unwritten =>
      intro reason unwritable
      refine ⟨item.isText_of_error unwritable, ?_⟩
      rw [writeItems_concat, Written.bytes_push, item.contribution_of_error unwritable,
        List.append_nil]

/-- Text that cannot be written and text that is read in lower case, among other items. -/
theorem reads_of_writeItems_mixed :
    let items : List Item := [.uint8 7, .text .ascii "é", .varint (-3), .text .hex "AB", .raw [1, 2]]
    let reads := performAll (Reader.ofBytes (writeItems items).bytes) (matchingReads items)
    (writeItems items).bytes.length < 2 ^ 63 ∧
      reads.map Prod.fst =
        [.ok (.item (.uint8 7)), .ok (.item (.varint (-3))), .ok (.item (.text .hex "ab")),
          .ok (.item (.raw [1, 2]))] ∧
      reads.map (fun performed => Except.ok performed.2.position) =
        (writeItems items).outcomes.filter Except.isOk := by
  intro items reads
  have bounded : (writeItems items).bytes.length < 2 ^ 63 := by decide +kernel
  obtain ⟨found, positions, -⟩ := reads_of_writeItems items bounded
  refine ⟨bounded, found.trans ?_, positions⟩
  have written : accepted items =
      [.uint8 7, .varint (-3), .text .hex "AB", .raw [1, 2]] := by decide +kernel
  have lower : (Item.text .hex "AB").canonical = .text .hex "ab" := by decide +kernel
  rw [written, List.map_cons, List.map_cons, List.map_cons, lower]
  rfl

end SchemaWire.Wire
