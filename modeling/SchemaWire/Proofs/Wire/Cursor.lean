import SchemaWire.Proofs.Wire.Additions
import SchemaWire.Proofs.Wire.Failures
import SchemaWire.Proofs.Wire.Items

/-!
# Where reads leave a reader

Whatever is asked of a reader, and whatever comes of it, the reader moves forward within its buffer
or stays. A read of one piece fails where it stands. A read in several parts has passed over the
parts that succeeded, and later reads start there. So a run of reads, failing ones included, never
leaves the buffer, and no position that it computes leaves 64 bits.
-/

set_option autoImplicit false

namespace SchemaWire.Wire

/-- A reader that stands within these bytes, with all of them before and behind it. -/
structure Reader.Within (bytes : List UInt8) (reader : Reader) : Prop where
  position_le : reader.position ≤ bytes.length
  rest : reader.rest = bytes.drop reader.position

/-- A read of one piece: so many bytes or none. -/
def Request.IsSingle : Request → Prop
  | .uint8 | .uint16 | .uint32 | .binary32 | .binary64 | .raw _ | .checkedLength _ => True
  | .varuint | .varint | .prefixed | .text _ => False

/-- A read of bytes after their number. -/
def Request.IsCounted : Request → Prop
  | .prefixed | .text _ => True
  | .uint8 | .uint16 | .uint32 | .binary32 | .binary64 | .varuint | .varint | .raw _
  | .checkedLength _ => False

/-- Where an error leaves a reader that found the number of its bytes between two others: behind
this number if there are no such bytes, and behind the bytes if they are not a text. -/
def DecodeError.Leaves (before behindNumber : Reader) (declared : UInt64) (after : Reader) :
    DecodeError → Prop
  | .lengthOverflow _ _ | .truncated _ _ => after = behindNumber
  | .unreadableText start _ _ =>
    start = before.position ∧ after.position = behindNumber.position + declared.toNat
  | .varuintTooLong _ | .unbalanced | .trailing _ => False

/-- What a read does to a reader over a buffer of so many bytes. -/
structure Request.Moves (request : Request) (size : Nat) (before : Reader)
    (outcome : Except DecodeError Found) (after : Reader) : Prop where
  forward : before.position ≤ after.position
  stays {e : DecodeError} : request.IsSingle → outcome = .error e → after = before
  truncates {need available : Nat} :
    outcome = .error (.truncated need available) → available = size ∧ available < need
  leaves {behindNumber : Reader} {declared : UInt64} {e : DecodeError} :
    request.IsCounted → Read.varuint before = .ok declared behindNumber → outcome = .error e →
      e.Leaves before behindNumber declared after

/-! ## Readers within a buffer -/

section Within

variable {bytes taken : List UInt8} {reader next : Reader}

theorem Reader.within_ofBytes (bytes : List UInt8) : (Reader.ofBytes bytes).Within bytes where
  position_le := Nat.zero_le _
  rest := rfl

theorem Reader.Within.size_eq (within : reader.Within bytes) : reader.size = bytes.length := by
  have inside := within.position_le
  rw [Reader.size, Reader.remaining, within.rest, List.length_drop]
  omega

theorem Reader.Within.passes (within : reader.Within bytes) (passes : reader.Passes taken next) :
    next.Within bytes where
  position_le := by
    have total := passes.length_le.1
    rw [within.size_eq] at total
    omega
  rest := by
    have split : next.rest = reader.rest.drop taken.length := by
      rw [passes.rest, List.drop_left]
    rw [split, within.rest, List.drop_drop, passes.position]

end Within

namespace Read

variable {α β : Type}

/-! ## Where failures leave a reader -/

/-- A failure leaves the reader as it was. -/
structure FailsInPlace (read : Read α) : Prop where
  stays {reader next : Reader} {e : DecodeError} : read reader = .error e next → next = reader

/-- A failure too leaves a reader that has passed over bytes of the buffer. -/
structure KeepsTrack (read : Read α) : Prop where
  passes {reader next : Reader} {e : DecodeError} :
    read reader = .error e next → ∃ taken, reader.Passes taken next

namespace FailsInPlace

theorem take (count : Nat) : FailsInPlace (Read.take count) where
  stays failure := by
    rw [take_apply] at failure
    split at failure <;> cases failure
    rfl

theorem checkedLength (declared : UInt64) : FailsInPlace (Read.checkedLength declared) where
  stays failure := by
    rw [checkedLength_apply] at failure
    split at failure <;> cases failure
    rfl

theorem map {read : Read α} (inPlace : FailsInPlace read) (result : α → β) :
    FailsInPlace (do let value ← read; return result value) where
  stays failure := inPlace.stays (bind_pure_eq_error_iff.mp failure)

theorem fixed (width : Nat) : FailsInPlace (Read.fixed width) :=
  (take width).map _

theorem keepsTrack {read : Read α} (inPlace : FailsInPlace read) : KeepsTrack read where
  passes failure := ⟨[], Reader.Passes.nil_iff.mpr (inPlace.stays failure)⟩

end FailsInPlace

namespace KeepsTrack

theorem pure (value : α) : KeepsTrack (Pure.pure value : Read α) where
  passes failure := by cases failure

theorem throw (e : DecodeError) : KeepsTrack (MonadExcept.throw e : Read α) where
  passes failure := by
    cases failure
    exact ⟨[], Reader.Passes.nil_iff.mpr rfl⟩

theorem bind {read : Read α} {next : α → Read β} (isLocal : Local read) (first : KeepsTrack read)
    (second : ∀ value, KeepsTrack (next value)) : KeepsTrack (read >>= next) where
  passes failure := by
    rcases bind_eq_error_iff.mp failure with left | ⟨value, middle, left, right⟩
    · exact first.passes left
    · obtain ⟨taken, passed⟩ := isLocal.passes left
      obtain ⟨others, passedOthers⟩ := (second value).passes right
      exact ⟨taken ++ others, passed.trans passedOthers⟩

theorem map {read : Read α} (tracked : KeepsTrack read) (result : α → β) :
    KeepsTrack (do let value ← read; return result value) where
  passes failure := tracked.passes (bind_pure_eq_error_iff.mp failure)

theorem varuintFrom (start more index : Nat) (value : UInt64) :
    KeepsTrack (Read.varuintFrom start more index value) := by
  induction more generalizing index value with
  | zero => exact throw _
  | succ more ih =>
      refine bind .byte ((FailsInPlace.fixed 1).keepsTrack.map _) fun group => ?_
      dsimp only
      split
      · exact pure _
      · exact ih _ _

theorem varuint : KeepsTrack Read.varuint where
  passes {reader _ _} failure := (varuintFrom reader.position _ _ _).passes failure

theorem prefixed : KeepsTrack Read.prefixed :=
  bind .varuint varuint fun declared =>
    bind (.checkedLength declared) (FailsInPlace.checkedLength declared).keepsTrack fun length =>
      (FailsInPlace.take length).keepsTrack

theorem text (encoding : TextEncoding) : KeepsTrack (Read.text encoding) where
  passes {reader _ _} failure := by
    refine (bind .prefixed prefixed fun bytes => ?_ :
      KeepsTrack (Read.prefixed >>= fun bytes =>
        Read.readable encoding reader.position (textOfPayload encoding bytes))).passes failure
    cases textOfPayload encoding bytes with
    | ok content => exact pure _
    | error reason => exact throw _

end KeepsTrack

/-! ## Bytes after their number -/

section Counted

variable {reader behindNumber next : Reader} {declared : UInt64} {e : DecodeError}

theorem leaves_of_prefixed (number : varuint reader = .ok declared behindNumber)
    (failure : prefixed reader = .error e next) :
    e.Leaves reader behindNumber declared next := by
  rw [prefixed, bind_apply, number] at failure
  rcases bind_eq_error_iff.mp failure with refused | ⟨length, same, accepted, short⟩
  · have still := (FailsInPlace.checkedLength declared).stays refused
    rw [checkedLength_apply] at refused
    split at refused <;> cases refused
    exact still
  · obtain ⟨-, -, -, rfl⟩ := checkedLength_eq_ok_iff.mp accepted
    have still := (FailsInPlace.take length).stays short
    rw [take_apply] at short
    split at short <;> cases short
    exact still

theorem position_of_prefixed {bytes : List UInt8}
    (number : varuint reader = .ok declared behindNumber)
    (success : prefixed reader = .ok bytes next) :
    next.position = behindNumber.position + declared.toNat := by
  rw [prefixed, bind_apply, number] at success
  obtain ⟨length, same, accepted, taken⟩ := bind_eq_ok_iff.mp success
  obtain ⟨-, -, rfl, rfl⟩ := checkedLength_eq_ok_iff.mp accepted
  obtain ⟨count, passes⟩ := take_eq_ok_iff.mp taken
  rw [passes.position, count]

theorem leaves_of_text {encoding : TextEncoding}
    (number : varuint reader = .ok declared behindNumber)
    (failure : text encoding reader = .error e next) :
    e.Leaves reader behindNumber declared next := by
  have parts : (prefixed >>= fun bytes =>
      readable encoding reader.position (textOfPayload encoding bytes)) reader = .error e next :=
    failure
  rcases bind_eq_error_iff.mp parts with left | ⟨bytes, middle, found, refused⟩
  · exact leaves_of_prefixed number left
  · have behind := position_of_prefixed number found
    cases outcome : textOfPayload encoding bytes with
    | ok content =>
        rw [outcome] at refused
        cases refused
    | error reason =>
        rw [outcome] at refused
        cases refused
        exact ⟨rfl, behind⟩

end Counted

end Read

/-! ## Single reads -/

section Request

variable {bytes : List UInt8} {before after : Reader} {outcome : Except DecodeError Found}

theorem Request.local_read (request : Request) : Read.Local request.read := by
  cases request with
  | uint8 => exact .bind .byte fun _ => .pure _
  | uint16 => exact .bind (.fixed 2) fun _ => .pure _
  | uint32 => exact .bind (.fixed 4) fun _ => .pure _
  | binary32 => exact .bind .binary32 fun _ => .pure _
  | binary64 => exact .bind .binary64 fun _ => .pure _
  | varuint => exact .bind .varuint fun _ => .pure _
  | varint => exact .bind .varint fun _ => .pure _
  | raw count => exact .bind (.take count) fun _ => .pure _
  | prefixed => exact .bind .prefixed fun _ => .pure _
  | checkedLength declared => exact .bind (.checkedLength declared) fun _ => .pure _
  | text encoding => exact .bind (.text encoding) fun _ => .pure _

theorem Request.failsInPlace_read {request : Request} (single : request.IsSingle) :
    Read.FailsInPlace request.read := by
  cases request with
  | uint8 => exact ((Read.FailsInPlace.fixed 1).map _).map _
  | uint16 => exact (Read.FailsInPlace.fixed 2).map _
  | uint32 => exact (Read.FailsInPlace.fixed 4).map _
  | binary32 => exact ((Read.FailsInPlace.fixed 4).map _).map _
  | binary64 => exact ((Read.FailsInPlace.fixed 8).map _).map _
  | raw count => exact (Read.FailsInPlace.take count).map _
  | checkedLength declared => exact (Read.FailsInPlace.checkedLength declared).map _
  | varuint | varint | prefixed | text encoding => exact single.elim

theorem Request.keepsTrack_read (request : Request) : Read.KeepsTrack request.read := by
  cases request with
  | varuint => exact Read.KeepsTrack.varuint.map _
  | varint => exact (Read.KeepsTrack.varuint.map _).map _
  | prefixed => exact Read.KeepsTrack.prefixed.map _
  | text encoding => exact (Read.KeepsTrack.text encoding).map _
  | _ => exact Read.FailsInPlace.keepsTrack (failsInPlace_read trivial)

theorem Request.perform_eq_error_iff {request : Request} {e : DecodeError} :
    request.perform before = (.error e, after) ↔ request.read before = .error e after := by
  have run : request.read.run before = request.read before := rfl
  rw [perform, run]
  cases request.read before <;> simp

theorem Request.perform_eq_ok_iff {request : Request} {found : Found} :
    request.perform before = (.ok found, after) ↔ request.read before = .ok found after := by
  have run : request.read.run before = request.read before := rfl
  rw [perform, run]
  cases request.read before <;> simp

/-- Whatever comes of a read, the bytes that the reader has passed over are bytes of the buffer. -/
theorem Request.exists_passes {request : Request}
    (performed : request.perform before = (outcome, after)) :
    ∃ taken, before.Passes taken after := by
  cases outcome with
  | ok found => exact request.local_read.passes (perform_eq_ok_iff.mp performed)
  | error e => exact request.keepsTrack_read.passes (perform_eq_error_iff.mp performed)

theorem Request.leaves_of_perform {request : Request} (counted : request.IsCounted)
    {behindNumber : Reader} {declared : UInt64} {e : DecodeError}
    (number : Read.varuint before = .ok declared behindNumber)
    (failure : request.read before = .error e after) :
    e.Leaves before behindNumber declared after := by
  cases request with
  | prefixed => exact Read.leaves_of_prefixed number (Read.bind_pure_eq_error_iff.mp failure)
  | text encoding => exact Read.leaves_of_text number (Read.bind_pure_eq_error_iff.mp failure)
  | _ => exact counted.elim

/-- What one read does to a reader within a buffer. -/
theorem Request.moves {request : Request} (within : before.Within bytes)
    (bounded : bytes.length < 2 ^ 63) (performed : request.perform before = (outcome, after)) :
    request.Moves bytes.length before outcome after where
  forward := by
    obtain ⟨taken, passes⟩ := exists_passes performed
    rw [passes.position]
    exact Nat.le_add_right _ _
  stays single failure := by
    subst failure
    exact (failsInPlace_read single).stays (perform_eq_error_iff.mp performed)
  truncates failure := by
    subst failure
    have size := within.size_eq
    obtain ⟨available, short, -⟩ :=
      request.local_read.truncates (by omega) (perform_eq_error_iff.mp performed)
    exact ⟨available.trans size, by omega⟩
  leaves counted number failure := by
    subst failure
    exact leaves_of_perform counted number (perform_eq_error_iff.mp performed)

end Request

/-! ## Runs of reads -/

section Runs

variable {bytes : List UInt8} {reader : Reader} {requests : List Request}

theorem Reader.Within.afterAll (within : reader.Within bytes) :
    (reader.afterAll requests).Within bytes := by
  induction requests generalizing reader with
  | nil => exact within
  | cons request rest ih =>
      obtain ⟨taken, passes⟩ := request.exists_passes (Prod.eta (request.perform reader)).symm
      exact ih (within.passes passes)

theorem Reader.afterAll_concat (request : Request) :
    reader.afterAll (requests ++ [request]) = (request.perform (reader.afterAll requests)).2 := by
  rw [Reader.afterAll, List.foldl_append, List.foldl_cons, List.foldl_nil, Reader.afterAll]

theorem getElem?_performAll (before : List Request) (request : Request) (after : List Request) :
    (performAll reader (before ++ request :: after))[before.length]? =
      some (request.perform (reader.afterAll before)) := by
  induction before generalizing reader with
  | nil => rfl
  | cons first before ih =>
      rw [List.cons_append, performAll, List.length_cons, List.getElem?_cons_succ, ih]
      rfl

theorem Read.Adding.performAll_eq {add : Nat → Nat → Nat}
    (agrees : ∀ a b, a + b < 2 ^ 64 → add a b = a + b) (within : reader.Within bytes)
    (bounded : bytes.length < 2 ^ 63) :
    performAll add reader requests = Wire.performAll reader requests := by
  induction requests generalizing reader with
  | nil => rfl
  | cons request rest ih =>
      have small : reader.size < 2 ^ 63 := by rwa [within.size_eq]
      obtain ⟨taken, passes⟩ := request.exists_passes (Prod.eta (request.perform reader)).symm
      have others := ih (within.passes passes)
      rw [performAll, Wire.performAll, perform_eq agrees request small]
      exact congrArg (List.cons _) others

end Runs

/-- Runs of reads over a buffer shorter than 2^63 bytes, failing reads included and whatever counts
and lengths are asked for. Every reader on the way stands within the buffer and has exactly the rest
of it left. Every read moves the reader forward or leaves it; it leaves it on a failure to take one
piece, truncations need more bytes than the buffer has, and bytes after their number fail behind the
number, or behind themselves where they are not a text. No sum of a position and a count leaves 64
bits: an addition that does anything else there changes nothing. -/
theorem reader_of_performAll (bytes : List UInt8) (bounded : bytes.length < 2 ^ 63)
    (requests : List Request) :
    let start := Reader.ofBytes bytes
    (∀ before after, requests = before ++ after →
      let reader := start.afterAll before
      reader.position ≤ bytes.length ∧
        reader.position + reader.remaining = bytes.length ∧
        (reader.isExhausted = true ↔ reader.remaining = 0) ∧
        reader.rest = bytes.drop reader.position) ∧
      (∀ before request after, requests = before ++ request :: after →
        ∃ outcome, (performAll start requests)[before.length]? =
            some (outcome, start.afterAll (before ++ [request])) ∧
          request.Moves bytes.length (start.afterAll before) outcome
            (start.afterAll (before ++ [request]))) ∧
      ∀ add : Nat → Nat → Nat, (∀ a b, a + b < 2 ^ 64 → add a b = a + b) →
        Read.Adding.performAll add start requests = performAll start requests := by
  intro start
  have within : start.Within bytes := Reader.within_ofBytes bytes
  refine ⟨?states, ?steps, fun add agrees => Read.Adding.performAll_eq agrees within bounded⟩
  case states =>
    intro before after _ reader
    have stands : reader.Within bytes := within.afterAll
    exact ⟨stands.position_le, stands.size_eq, Read.isExhausted_iff, stands.rest⟩
  case steps =>
    intro before request after split
    refine ⟨(request.perform (start.afterAll before)).1, ?_, ?_⟩
    · rw [split, getElem?_performAll, Reader.afterAll_concat]
    · exact Request.moves within.afterAll bounded (by rw [Reader.afterAll_concat])

/-- Four failures one after another: bytes that are not a text, a length and a count that leave 64
bits, and bytes that are too few. An addition that wraps around finds the same. -/
theorem reader_of_performAll_failures :
    let bytes : List UInt8 := [2, 0xc3, 0x28, 5, 1]
    let start := Reader.ofBytes bytes
    let others : List Request := [.text .utf8, .checkedLength 0x8000000000000000, .raw (2 ^ 64 - 1)]
    let requests := others ++ [.prefixed]
    bytes.length < 2 ^ 63 ∧
      performAll start requests =
        [(.error (.unreadableText 0 .utf8 (.utf8 (.invalid 0 1))), ⟨3, [5, 1]⟩),
          (.error (.lengthOverflow 0x8000000000000000 2), ⟨3, [5, 1]⟩),
          (.error (.truncated (2 ^ 64 - 1) 5), ⟨3, [5, 1]⟩),
          (.error (.truncated 9 5), ⟨4, [1]⟩)] ∧
      (start.afterAll requests).position + (start.afterAll requests).remaining = 5 ∧
      (∃ outcome, (performAll start requests)[3]? = some (outcome, start.afterAll requests) ∧
        Request.prefixed.Moves 5 (start.afterAll others) outcome (start.afterAll requests)) ∧
      Read.Adding.performAll (fun a b => (a + b) % 2 ^ 64) start requests =
        performAll start requests := by
  intro bytes start others requests
  have bounded : bytes.length < 2 ^ 63 := by decide
  obtain ⟨states, steps, sums⟩ := reader_of_performAll bytes bounded requests
  obtain ⟨-, whole, -⟩ := states requests [] rfl
  -- So many bytes are not counted down one by one.
  have short : Read.take (2 ^ 64 - 1) ⟨3, [5, 1]⟩ = .error (.truncated (2 ^ 64 - 1) 5) ⟨3, [5, 1]⟩ :=
    Read.take_apply _ _
  have refused : (Request.raw (2 ^ 64 - 1)).perform ⟨3, [5, 1]⟩ =
      (.error (.truncated (2 ^ 64 - 1) 5), ⟨3, [5, 1]⟩) :=
    Request.perform_eq_error_iff.mpr (Read.bind_eq_error_iff.mpr (.inl short))
  have before : performAll start requests =
      (.error (.unreadableText 0 .utf8 (.utf8 (.invalid 0 1))), ⟨3, [5, 1]⟩) ::
        (.error (.lengthOverflow 0x8000000000000000 2), ⟨3, [5, 1]⟩) ::
          performAll ⟨3, [5, 1]⟩ [.raw (2 ^ 64 - 1), .prefixed] := rfl
  refine ⟨bounded, ?outcomes, whole, steps others .prefixed [] rfl, sums _ ?wrapping⟩
  case outcomes =>
    rw [before, performAll, refused]
    rfl
  case wrapping =>
    intro a b fits
    exact Nat.mod_eq_of_lt fits

end SchemaWire.Wire
