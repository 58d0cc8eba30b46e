import Mathlib.Algebra.GroupWithZero.Nat
import SchemaWire.Proofs.Wire.Outcomes

/-!
# Repeated reads

A read that takes a byte whenever it succeeds cannot be repeated more often than there are bytes.
So repeating it to the end of the bytes comes to an end on every input, and repeating it more often
than there are bytes fails.
-/

set_option autoImplicit false

namespace SchemaWire.Wire.Read

variable {α β γ : Type}

/-! ## The loop -/

/-- The outcome of reading an element and then others. -/
def prepend (item : α) :
    EStateM.Result DecodeError Reader (List α) → EStateM.Result DecodeError Reader (List α)
  | .ok items next => .ok (item :: items) next
  | .error e next => .error e next

/-- A loop that reads until no byte is left ends after so many rounds with an outcome. Nothing in it
limits the number of rounds. -/
inductive Rounds (read : Read α) :
    Reader → Nat → EStateM.Result DecodeError Reader (List α) → Prop where
  | exhausted {reader : Reader} (done : reader.isExhausted = true) :
      Rounds read reader 0 (.ok [] reader)
  | failed {reader after : Reader} {e : DecodeError} (unfinished : reader.isExhausted = false)
      (failure : read reader = .error e after) : Rounds read reader 1 (.error e after)
  | again {reader middle : Reader} {item : α} {rounds : Nat}
      {outcome : EStateM.Result DecodeError Reader (List α)}
      (unfinished : reader.isExhausted = false) (first : read reader = .ok item middle)
      (rest : Rounds read middle rounds outcome) :
      Rounds read reader (rounds + 1) (prepend item outcome)

variable {read : Read α}

theorem toEnd_apply (advances : Advances read) (reader : Reader) :
    toEnd read reader =
      if reader.isExhausted then .ok [] reader
      else match read reader with
        | .ok item middle => prepend item (toEnd read middle)
        | .error e after => .error e after := by
  have unfolded := congrFun (toEnd_eq advances) reader
  have looked : (do
      let reader ← get
      if reader.isExhausted then return []
      else do
        let first ← read
        let others ← toEnd read
        return first :: others : Read (List α)) reader =
      (if reader.isExhausted then pure [] else do
        let first ← read
        let others ← toEnd read
        return first :: others : Read (List α)) reader := rfl
  rw [unfolded, looked]
  split
  · rfl
  · rw [bind_apply]
    cases read reader with
    | error e after => rfl
    | ok item middle =>
        dsimp only
        rw [bind_apply]
        cases toEnd read middle <;> rfl

/-- The loop ends on every input, after no more rounds than there are bytes. -/
theorem exists_rounds (advances : Advances read) (reader : Reader) :
    ∃ rounds ≤ reader.remaining, Rounds read reader rounds (toEnd read reader) := by
  induction bytes : reader.remaining using Nat.strongRecOn generalizing reader with
  | ind bytes ih =>
      rw [toEnd_apply advances]
      cases done : reader.isExhausted with
      | true => exact ⟨0, Nat.zero_le _, .exhausted done⟩
      | false =>
          have some : reader.remaining ≠ 0 := by
            intro none
            rw [isExhausted_iff.mpr none] at done
            cases done
          cases first : read reader with
          | error e after => exact ⟨1, by omega, .failed done first⟩
          | ok item middle =>
              have fewer := advances.fewer first
              obtain ⟨rounds, few, rest⟩ := ih middle.remaining (bytes ▸ fewer) middle rfl
              exact ⟨rounds + 1, by omega, .again done first rest⟩

/-! ## Costs -/

/-- What is found costs no more than the bytes that are taken. -/
structure Pays (read : Read α) (cost : α → Nat) : Prop where
  paid {reader next : Reader} {value : α} :
    read reader = .ok value next → cost value + next.remaining ≤ reader.remaining

theorem Advances.pays (advances : Advances read) : Pays read fun _ => 1 where
  paid success := by
    rw [Nat.add_comm]
    exact advances.fewer success

theorem Advances.position_lt (advances : Advances read) (isLocal : Local read)
    {reader next : Reader} {value : α} (success : read reader = .ok value next) :
    reader.position < next.position ∧ next.size = reader.size := by
  obtain ⟨taken, passes⟩ := isLocal.passes success
  have size := passes.size_eq
  have fewer := advances.fewer success
  refine ⟨?_, size⟩
  simp only [Reader.size] at size
  omega

namespace Pays

variable {cost : α → Nat}

theorem pure {value : α} (free : cost value = 0) : Pays (Pure.pure value) cost where
  paid success := by
    obtain ⟨rfl, rfl⟩ := pure_eq_ok_iff.mp success
    exact Nat.le_of_eq (by rw [free, Nat.zero_add])

theorem bind {read : Read α} {next : α → Read β} {others total : β → Nat} (first : Pays read cost)
    (second : ∀ value, Pays (next value) others)
    (sum : ∀ value result, total result ≤ cost value + others result) :
    Pays (read >>= next) total where
  paid {_ _ result} success := by
    obtain ⟨value, middle, left, right⟩ := bind_eq_ok_iff.mp success
    have paidFirst := first.paid left
    have paidSecond := (second value).paid right
    have whole := sum value result
    omega

theorem map {read : Read α} {result : α → β} {total : β → Nat} (pays : Pays read cost)
    (same : ∀ value, total (result value) ≤ cost value) :
    Pays (do let value ← read; return result value) total where
  paid success := by
    obtain ⟨value, found, rfl⟩ := bind_pure_eq_ok_iff.mp success
    exact Nat.le_trans (Nat.add_le_add_right (same value) _) (pays.paid found)

theorem pair {first : Read α} {second : Read β} {others : β → Nat} {result : α → β → γ}
    {total : γ → Nat} (left : Pays first cost) (right : Pays second others)
    (sum : ∀ value other, total (result value other) ≤ cost value + others other) :
    Pays (do let value ← first; let other ← second; return result value other) total where
  paid success := by
    obtain ⟨value, middle, firstRead, success⟩ := bind_eq_ok_iff.mp success
    obtain ⟨other, secondRead, rfl⟩ := bind_pure_eq_ok_iff.mp success
    have paidFirst := left.paid firstRead
    have paidSecond := right.paid secondRead
    have whole := sum value other
    omega

theorem cons {read : Read α} {rest : Read (List α)} (element : Pays read cost)
    (others : Pays rest fun items => (items.map cost).sum) :
    Pays (do let first ← read; let others ← rest; return first :: others)
      fun items => (items.map cost).sum :=
  element.pair others fun _ _ => Nat.le_refl _

theorem times (element : Pays read cost) (count : Nat) :
    Pays (Read.times read count) fun items => (items.map cost).sum := by
  induction count with
  | zero => exact .pure rfl
  | succ count ih => exact element.cons ih

theorem untilExhausted (element : Pays read cost) (limit : Nat) :
    Pays (Read.untilExhausted read limit) fun items => (items.map cost).sum := by
  induction limit with
  | zero => exact .pure rfl
  | succ limit ih =>
      constructor
      intro reader next items success
      rw [untilExhausted_succ] at success
      split at success
      · cases success
        exact Nat.le_of_eq (Nat.zero_add _)
      · exact (element.cons ih).paid success

theorem toEnd (element : Pays read cost) :
    Pays (Read.toEnd read) fun items => (items.map cost).sum where
  paid {reader _ _} success := (element.untilExhausted reader.remaining).paid success

end Pays

theorem length_of_times {count : Nat} {reader next : Reader} {items : List α}
    (success : times read count reader = .ok items next) : items.length = count := by
  induction count generalizing reader items with
  | zero =>
      obtain ⟨rfl, -⟩ := pure_eq_ok_iff.mp success
      rfl
  | succ count ih =>
      obtain ⟨item, middle, -, success⟩ := bind_eq_ok_iff.mp success
      obtain ⟨others, rest, rfl⟩ := bind_pure_eq_ok_iff.mp success
      rw [List.length_cons, ih rest]

/-- Elements that are read one by one take a byte each. -/
theorem Advances.le_remaining (advances : Advances read) {count : Nat} {reader next : Reader}
    {items : List α} (success : times read count reader = .ok items next) :
    count ≤ reader.remaining := by
  have paid := (advances.pays.times count).paid success
  rw [List.map_const', List.sum_replicate_nat, length_of_times success] at paid
  omega

theorem Advances.times_fails (advances : Advances read) {count : Nat} {reader : Reader}
    (short : reader.remaining < count) : ∃ e next, times read count reader = .error e next := by
  cases outcome : times read count reader with
  | error e next => exact ⟨e, next, rfl⟩
  | ok items next => exact absurd (advances.le_remaining outcome) (Nat.not_le.mpr short)

/-! ## Reads that accept the same -/

/-- Where one of two reads succeeds the other one does, with the same value and the same reader. -/
structure SameSuccesses (read other : Read α) : Prop where
  ok_iff {reader next : Reader} {value : α} :
    read reader = .ok value next ↔ other reader = .ok value next

namespace SameSuccesses

theorem refl (read : Read α) : SameSuccesses read read :=
  ⟨Iff.rfl⟩

theorem bind {read other : Read α} {next otherNext : α → Read β} (first : SameSuccesses read other)
    (second : ∀ value, SameSuccesses (next value) (otherNext value)) :
    SameSuccesses (read >>= next) (other >>= otherNext) where
  ok_iff {_ _ _} := by
    rw [bind_eq_ok_iff, bind_eq_ok_iff]
    exact exists_congr fun value => exists_congr fun middle =>
      and_congr first.ok_iff (second value).ok_iff

theorem cons {read other : Read α} {rest otherRest : Read (List α)}
    (first : SameSuccesses read other) (others : SameSuccesses rest otherRest) :
    SameSuccesses (do let first ← read; let others ← rest; return first :: others)
      (do let first ← other; let others ← otherRest; return first :: others) :=
  first.bind fun _ => others.bind fun _ => .refl _

theorem times {read other : Read α} (element : SameSuccesses read other) (count : Nat) :
    SameSuccesses (Read.times read count) (Read.times other count) := by
  induction count with
  | zero => exact .refl _
  | succ count ih => exact element.cons ih

theorem untilExhausted {read other : Read α} (element : SameSuccesses read other) (limit : Nat) :
    SameSuccesses (Read.untilExhausted read limit) (Read.untilExhausted other limit) := by
  induction limit with
  | zero => exact .refl _
  | succ limit ih =>
      constructor
      intro reader next items
      rw [untilExhausted_succ, untilExhausted_succ]
      split
      · exact Iff.rfl
      · exact (element.cons ih).ok_iff

theorem toEnd {read other : Read α} (element : SameSuccesses read other) :
    SameSuccesses (Read.toEnd read) (Read.toEnd other) where
  ok_iff {reader _ _} := (element.untilExhausted reader.remaining).ok_iff

end SameSuccesses

end SchemaWire.Wire.Read
