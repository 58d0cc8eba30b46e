import SchemaWire.Proofs.Wire.Reading

/-!
# Reads and longer buffers

A read looks at no byte past those it takes. So what it does on a buffer decides what it does on
every longer one: a success takes the same bytes, a refusal stays a refusal, and only a truncation
can turn into something else, once as many bytes are there as it asked for.
-/

set_option autoImplicit false

namespace SchemaWire.Wire

def Reader.extend (reader : Reader) (more : List UInt8) : Reader :=
  ⟨reader.position, reader.rest ++ more⟩

theorem Reader.size_extend (reader : Reader) (more : List UInt8) :
    (reader.extend more).size = reader.size + more.length := by
  simp [Reader.extend, Reader.size, Reader.remaining, Nat.add_assoc]

theorem Reader.Passes.extend {reader next : Reader} {taken : List UInt8}
    (passes : reader.Passes taken next) (more : List UInt8) :
    (reader.extend more).Passes taken (next.extend more) where
  rest := by simp only [Reader.extend, passes.rest, List.append_assoc]
  position := passes.position

/-- Whether an error asks for more bytes. -/
def DecodeError.IsTruncation : DecodeError → Prop
  | .truncated _ _ => True
  | _ => False

/-- The error on a buffer with so many more bytes. Only the count of available bytes differs. -/
def DecodeError.withMore (more : Nat) : DecodeError → DecodeError
  | .lengthOverflow declared available => .lengthOverflow declared (available + more)
  | e => e

namespace Read

variable {α β : Type}

/-- What a read does on some bytes decides what it does on these bytes and more. -/
structure Local (read : Read α) : Prop where
  passes {reader next : Reader} {value : α} :
    read reader = .ok value next → ∃ taken, reader.Passes taken next
  succeeds {reader next : Reader} {value : α} :
    read reader = .ok value next →
      ∀ more, read (reader.extend more) = .ok value (next.extend more)
  /-- A truncation reports the size of the buffer and a greater one, which no buffer that goes on
  to be read falls short of. -/
  truncates {reader next : Reader} {need size : Nat} :
    reader.size < 2 ^ 63 → read reader = .error (.truncated need size) next →
      size = reader.size ∧ reader.size < need ∧
        ∀ more value after, read (reader.extend more) = .ok value after →
          need ≤ (reader.extend more).size
  refuses {reader next : Reader} {e : DecodeError} :
    read reader = .error e next → ¬ e.IsTruncation →
      ∀ more, ∃ after, read (reader.extend more) = .error (e.withMore more.length) after

/-- What a failure says about longer buffers: as much as for a local read. -/
structure FailsLocally (read : Read α) : Prop where
  truncates {reader next : Reader} {need size : Nat} :
    reader.size < 2 ^ 63 → read reader = .error (.truncated need size) next →
      size = reader.size ∧ reader.size < need ∧
        ∀ more value after, read (reader.extend more) = .ok value after →
          need ≤ (reader.extend more).size
  refuses {reader next : Reader} {e : DecodeError} :
    read reader = .error e next → ¬ e.IsTruncation →
      ∀ more, ∃ after, read (reader.extend more) = .error (e.withMore more.length) after

theorem Local.failsLocally {read : Read α} (isLocal : Local read) : FailsLocally read where
  truncates := isLocal.truncates
  refuses := isLocal.refuses

/-- What comes after a local read need not be local itself. -/
theorem FailsLocally.bind {read : Read α} {next : α → Read β} (first : Local read)
    (second : ∀ value, FailsLocally (next value)) : FailsLocally (read >>= next) where
  truncates {reader _ _ _} bounded failure := by
    rcases bind_eq_error_iff.mp failure with left | ⟨value, middle, left, right⟩
    · obtain ⟨size, short, enough⟩ := first.truncates bounded left
      refine ⟨size, short, fun more found after success => ?_⟩
      obtain ⟨value, middle, longer, -⟩ := bind_eq_ok_iff.mp success
      exact enough more value middle longer
    · obtain ⟨taken, passes⟩ := first.passes left
      obtain ⟨size, short, enough⟩ := (second value).truncates (by rwa [passes.size_eq]) right
      rw [passes.size_eq] at size short
      refine ⟨size, short, fun more found after success => ?_⟩
      rw [bind_apply, first.succeeds left more] at success
      have need := enough more found after success
      rwa [(passes.extend more).size_eq] at need
  refuses failure final more := by
    rcases bind_eq_error_iff.mp failure with left | ⟨value, middle, left, right⟩
    · obtain ⟨after, longer⟩ := first.refuses left final more
      exact ⟨after, bind_eq_error_iff.mpr (.inl longer)⟩
    · obtain ⟨after, longer⟩ := (second value).refuses right final more
      exact ⟨after, bind_eq_error_iff.mpr
        (.inr ⟨value, middle.extend more, first.succeeds left more, longer⟩)⟩

namespace Local

theorem pure (value : α) : Local (Pure.pure value : Read α) where
  passes {reader next found} success := by
    obtain ⟨-, rfl⟩ := pure_eq_ok_iff.mp success
    exact ⟨[], Reader.Passes.nil_iff.mpr rfl⟩
  succeeds success more := by
    obtain ⟨rfl, rfl⟩ := pure_eq_ok_iff.mp success
    rfl
  truncates _ failure := by cases failure
  refuses failure := by cases failure

theorem throw {e : DecodeError} (final : ¬ e.IsTruncation)
    (same : ∀ more : Nat, e.withMore more = e) : Local (MonadExcept.throw e : Read α) where
  passes success := by cases success
  succeeds success := by cases success
  truncates _ failure := by
    cases failure
    exact (final trivial).elim
  refuses {reader _ _} failure _ more := by
    cases failure
    exact ⟨reader.extend more, by rw [same]; rfl⟩

theorem bind {read : Read α} {next : α → Read β} (first : Local read)
    (second : ∀ value, Local (next value)) : Local (read >>= next) where
  passes success := by
    obtain ⟨value, middle, left, right⟩ := bind_eq_ok_iff.mp success
    obtain ⟨taken, passed⟩ := first.passes left
    obtain ⟨others, passedOthers⟩ := (second value).passes right
    exact ⟨taken ++ others, passed.trans passedOthers⟩
  succeeds success more := by
    obtain ⟨value, middle, left, right⟩ := bind_eq_ok_iff.mp success
    exact bind_eq_ok_iff.mpr
      ⟨value, middle.extend more, first.succeeds left more, (second value).succeeds right more⟩
  truncates := (FailsLocally.bind first fun value => (second value).failsLocally).truncates
  refuses := (FailsLocally.bind first fun value => (second value).failsLocally).refuses

/-- A read that looks at its position first is local if it is local for every position. -/
theorem ofPosition (read : Nat → Read α) (each : ∀ position, Local (read position)) :
    Local (do let reader ← get; read reader.position) where
  passes {reader _ _} success := (each reader.position).passes success
  succeeds {reader _ _} success := (each reader.position).succeeds success
  truncates {reader _ _ _} bounded failure := (each reader.position).truncates bounded failure
  refuses {reader _ _} failure := (each reader.position).refuses failure

theorem take (count : Nat) : Local (Read.take count) where
  passes success := ⟨_, (take_eq_ok_iff.mp success).2⟩
  succeeds success more := by
    obtain ⟨length, passes⟩ := take_eq_ok_iff.mp success
    exact take_eq_ok_iff.mpr ⟨length, passes.extend more⟩
  truncates {reader next need size} bounded failure := by
    rw [take_apply] at failure
    split at failure
    · cases failure
    · rename_i short
      cases failure
      have whole : reader.size = reader.position + reader.remaining := rfl
      refine ⟨rfl, by omega, fun more bytes after success => ?_⟩
      obtain ⟨length, passes⟩ := take_eq_ok_iff.mp success
      have moved := passes.position
      have total : after.position + after.remaining = (reader.extend more).size := passes.size_eq
      simp only [Reader.extend] at moved
      omega
  refuses {reader next e} failure final := by
    rw [take_apply] at failure
    split at failure
    · cases failure
    · cases failure
      exact (final trivial).elim

theorem fixed (width : Nat) : Local (Read.fixed width) :=
  (take width).bind fun _ => pure _

theorem byte : Local Read.byte :=
  (fixed 1).bind fun _ => pure _

theorem binary32 : Local Read.binary32 :=
  (fixed 4).bind fun _ => pure _

theorem binary64 : Local Read.binary64 :=
  (fixed 8).bind fun _ => pure _

theorem varuintFrom (start more index : Nat) (value : UInt64) :
    Local (Read.varuintFrom start more index value) := by
  induction more generalizing index value with
  | zero => exact throw (fun truncation => truncation) fun _ => rfl
  | succ more ih =>
      refine byte.bind fun group => ?_
      dsimp only
      split
      · exact pure _
      · exact ih _ _

theorem varuint : Local Read.varuint :=
  ofPosition (fun position => Read.varuintFrom position maxVaruintLength 0 0) fun _ =>
    varuintFrom _ _ _ _

theorem varint : Local Read.varint :=
  varuint.bind fun _ => pure _

theorem checkedLength (declared : UInt64) : Local (Read.checkedLength declared) where
  passes success := by
    obtain ⟨-, -, -, rfl⟩ := checkedLength_eq_ok_iff.mp success
    exact ⟨[], Reader.Passes.nil_iff.mpr rfl⟩
  succeeds success more := by
    obtain ⟨short, inside, rfl, rfl⟩ := checkedLength_eq_ok_iff.mp success
    exact checkedLength_eq_ok_iff.mpr ⟨short, inside, rfl, rfl⟩
  truncates _ failure := by
    rw [checkedLength_apply] at failure
    split at failure <;> cases failure
  refuses {reader _ _} failure _ more := by
    rw [checkedLength_apply] at failure
    split at failure
    · cases failure
    · rename_i unfit
      cases failure
      have position : (reader.extend more).position = reader.position := rfl
      have remaining : (reader.extend more).remaining = reader.remaining + more.length := by
        simp [Reader.extend, Reader.remaining]
      refine ⟨reader.extend more, ?_⟩
      rw [checkedLength_apply, position, if_neg unfit, remaining]
      rfl

theorem prefixed : Local Read.prefixed :=
  varuint.bind fun declared => (checkedLength declared).bind take

theorem readable (encoding : TextEncoding) (start : Nat) (outcome : Except UnreadableText String) :
    Local (Read.readable encoding start outcome) := by
  cases outcome with
  | ok content => exact pure _
  | error reason => exact throw (fun truncation => truncation) fun _ => rfl

theorem text (encoding : TextEncoding) : Local (Read.text encoding) := by
  rw [text_eq]
  exact ofPosition (fun position => Read.prefixed >>= fun bytes =>
    Read.readable encoding position (textOfPayload encoding bytes)) fun position =>
      prefixed.bind fun bytes => readable _ _ _

theorem times {read : Read α} (element : Local read) (count : Nat) :
    Local (Read.times read count) := by
  induction count with
  | zero => exact pure _
  | succ count ih => exact element.bind fun _ => ih.bind fun _ => pure _

/-- Where a reader is cut short of bytes that are all taken, the read asks for more bytes, and for no
more than were cut off. -/
theorem cut {read : Read α} (isLocal : Local read) {reader : Reader} {more : List UInt8}
    (short : more ≠ []) (bounded : (reader.extend more).size < 2 ^ 63) {value : α} {next : Reader}
    (success : read (reader.extend more) = .ok value next) (exhausted : next.rest = []) :
    ∃ need after, read reader = .error (.truncated need reader.size) after ∧
      reader.size < need ∧ need ≤ (reader.extend more).size := by
  have size := reader.size_extend more
  cases outcome : read reader with
  | ok found after =>
      have longer := isLocal.succeeds outcome more
      rw [success] at longer
      cases longer
      exact absurd (List.append_eq_nil_iff.mp exhausted).2 short
  | error e after =>
      by_cases truncation : e.IsTruncation
      · cases e with
        | truncated need reported =>
            obtain ⟨rfl, small, enough⟩ := isLocal.truncates (by omega) outcome
            exact ⟨need, after, rfl, small, enough more value next success⟩
        | _ => cases truncation
      · obtain ⟨last, longer⟩ := isLocal.refuses outcome truncation more
        rw [success] at longer
        cases longer

/-- The front of a buffer that is read to its end is truncated. -/
theorem front {read : Read α} (isLocal : Local read) {front more : List UInt8} (cut : more ≠ [])
    (bounded : (front ++ more).length < 2 ^ 63) {value : α} {next : Reader}
    (success : read (.ofBytes (front ++ more)) = .ok value next) (exhausted : next.rest = []) :
    ∃ need after, read (.ofBytes front) = .error (.truncated need front.length) after ∧
      front.length < need ∧ need ≤ (front ++ more).length := by
  have whole : (Reader.ofBytes front).extend more = .ofBytes (front ++ more) := rfl
  have size : ∀ bytes : List UInt8, (Reader.ofBytes bytes).size = bytes.length :=
    fun bytes => Nat.zero_add _
  have shortened := isLocal.cut cut (by rwa [whole, size]) (whole ▸ success) exhausted
  rwa [whole, size, size] at shortened

end Local

end Read

end SchemaWire.Wire
