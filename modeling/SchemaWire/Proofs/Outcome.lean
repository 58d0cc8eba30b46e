/-!
# Outcomes of computations that can fail

When a sequence of computations succeeds and where it fails, and what a renamed error leaves alone.
-/

set_option autoImplicit false

namespace SchemaWire.Outcome

variable {ε δ α β : Type}

theorem bind_eq_ok_iff {first : Except ε α} {next : α → Except ε β} {result : β} :
    (first >>= next) = .ok result ↔ ∃ value, first = .ok value ∧ next value = .ok result := by
  cases first with
  | error e => simp [bind, Except.bind]
  | ok value =>
      constructor
      · intro success
        exact ⟨value, rfl, success⟩
      · rintro ⟨_, same, success⟩
        cases same
        exact success

theorem bind_pure_eq_ok_iff {first : Except ε α} {next : α → β} {result : β} :
    (first >>= fun value => pure (next value)) = .ok result ↔
      ∃ value, first = .ok value ∧ next value = result := by
  rw [bind_eq_ok_iff]
  constructor
  · rintro ⟨value, success, same⟩
    cases same
    exact ⟨value, success, rfl⟩
  · rintro ⟨value, success, rfl⟩
    exact ⟨value, success, rfl⟩

theorem mapError_eq_ok_iff {rename : ε → δ} {outcome : Except ε α} {result : α} :
    outcome.mapError rename = .ok result ↔ outcome = .ok result := by
  cases outcome with
  | ok value =>
      constructor
      · intro success
        cases success
        rfl
      · intro success
        cases success
        rfl
  | error e =>
      constructor
      · intro failure
        cases failure
      · intro failure
        cases failure

theorem mapError_eq_error_iff {rename : ε → δ} {outcome : Except ε α} {e : δ} :
    outcome.mapError rename = .error e ↔ ∃ fault, outcome = .error fault ∧ rename fault = e := by
  cases outcome with
  | ok value =>
      constructor
      · intro success
        cases success
      · intro ⟨fault, failure, same⟩
        cases failure
  | error found =>
      constructor
      · intro failure
        cases failure
        exact ⟨found, rfl, rfl⟩
      · intro ⟨fault, failure, same⟩
        cases failure
        cases same
        rfl

theorem bind_pure_eq_error_iff {first : Except ε α} {next : α → β} {e : ε} :
    (first >>= fun value => pure (next value)) = .error e ↔ first = .error e := by
  cases first with
  | ok value =>
      constructor <;> intro failure <;> cases failure
  | error found =>
      constructor <;> intro failure <;> cases failure <;> rfl

theorem bind_eq_error_iff {first : Except ε α} {next : α → Except ε β} {e : ε} :
    (first >>= next) = .error e ↔
      first = .error e ∨ ∃ value, first = .ok value ∧ next value = .error e := by
  cases first with
  | error found =>
      constructor
      · intro failure
        cases failure
        exact .inl rfl
      · rintro (failure | ⟨value, success, -⟩)
        · cases failure
          rfl
        · cases success
  | ok value =>
      constructor
      · intro failure
        exact .inr ⟨value, rfl, failure⟩
      · rintro (failure | ⟨_, success, failure⟩)
        · cases failure
        · cases success
          exact failure

/-- A computation succeeds exactly if it does not fail. -/
theorem exists_eq_ok_iff {outcome : Except ε α} :
    (∃ value, outcome = .ok value) ↔ ∀ e, outcome ≠ .error e := by
  cases outcome with
  | ok value => exact ⟨fun _ _ => nofun, fun _ => ⟨value, rfl⟩⟩
  | error e => exact ⟨nofun, fun none => absurd rfl (none e)⟩

/-! ## Errors of outcomes -/

/-- The error of a computation that fails. -/
def failure? : Except ε α → Option ε
  | .ok _ => none
  | .error e => some e

theorem failure?_eq_some_iff {outcome : Except ε α} {e : ε} :
    failure? outcome = some e ↔ outcome = .error e := by
  cases outcome <;> simp [failure?]

theorem failure?_eq_none_iff {outcome : Except ε α} :
    failure? outcome = none ↔ ∃ value, outcome = .ok value := by
  cases outcome <;> simp [failure?]

theorem failure?_bind_pure (first : Except ε α) (next : α → β) :
    failure? (first >>= fun value => pure (next value)) = failure? first := by
  cases first <;> rfl

/-! ## Outcomes up to their errors -/

theorem toOption_eq_some_iff {outcome : Except ε α} {result : α} :
    outcome.toOption = some result ↔ outcome = .ok result := by
  cases outcome <;> simp [Except.toOption]

theorem toOption_bind (first : Except ε α) (next : α → Except ε β) :
    (first >>= next).toOption = first.toOption.bind fun value => (next value).toOption := by
  cases first <;> rfl

theorem toOption_mapError (rename : ε → δ) (outcome : Except ε α) :
    (outcome.mapError rename).toOption = outcome.toOption := by
  cases outcome <;> rfl

/-! ## Lists of computations -/

variable {step : α → Except ε β} {items : List α}

/-- A list of computations fails at the first of them that fails. -/
theorem mapM_eq_error_iff {e : ε} :
    items.mapM step = .error e ↔ ∃ before item after, items = before ++ item :: after ∧
      (∀ earlier ∈ before, ∃ result, step earlier = .ok result) ∧ step item = .error e := by
  induction items with
  | nil =>
      constructor
      · intro failure
        cases failure
      · rintro ⟨before, item, after, same, -⟩
        cases before <;> cases same
  | cons first rest ih =>
      rw [List.mapM_cons]
      cases outcome : step first with
      | error found =>
          constructor
          · intro failure
            cases failure
            exact ⟨[], first, rest, rfl, by simp, outcome⟩
          · rintro ⟨before, item, after, same, earlier, failure⟩
            cases before with
            | nil =>
                cases same
                cases outcome.symm.trans failure
                rfl
            | cons other before =>
                cases same
                obtain ⟨result, success⟩ := earlier _ List.mem_cons_self
                cases outcome.symm.trans success
      | ok value =>
          have later : (do
              let first ← Except.ok value
              let others ← rest.mapM step
              return first :: others) = Except.error e ↔ rest.mapM step = .error e :=
            bind_pure_eq_error_iff
          rw [later, ih]
          constructor
          · rintro ⟨before, item, after, rfl, earlier, failure⟩
            exact ⟨first :: before, item, after, rfl,
              List.forall_mem_cons.mpr ⟨⟨value, outcome⟩, earlier⟩, failure⟩
          · rintro ⟨before, item, after, same, earlier, failure⟩
            cases before with
            | nil =>
                cases same
                cases outcome.symm.trans failure
            | cons other before =>
                cases same
                exact ⟨before, item, after, rfl, (List.forall_mem_cons.mp earlier).2, failure⟩

theorem exists_mapM_eq_ok_iff :
    (∃ results, items.mapM step = .ok results) ↔
      ∀ item ∈ items, ∃ result, step item = .ok result := by
  induction items with
  | nil => exact ⟨fun _ => by simp, fun _ => ⟨[], rfl⟩⟩
  | cons first rest ih =>
      rw [List.forall_mem_cons, ← ih]
      constructor
      · rintro ⟨results, success⟩
        rw [List.mapM_cons] at success
        obtain ⟨value, firstSuccess, success⟩ := bind_eq_ok_iff.mp success
        obtain ⟨others, restSuccess, -⟩ := bind_pure_eq_ok_iff.mp success
        exact ⟨⟨value, firstSuccess⟩, ⟨others, restSuccess⟩⟩
      · rintro ⟨⟨value, firstSuccess⟩, ⟨others, restSuccess⟩⟩
        rw [List.mapM_cons]
        exact ⟨_, bind_eq_ok_iff.mpr ⟨value, firstSuccess,
          bind_pure_eq_ok_iff.mpr ⟨others, restSuccess, rfl⟩⟩⟩

end SchemaWire.Outcome
