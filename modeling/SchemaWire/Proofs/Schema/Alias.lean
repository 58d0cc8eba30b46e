import SchemaWire.Proofs.Text.Name
import SchemaWire.Schema.Alias

/-!
# Look-up and registration of aliases

What a name denotes by its kind, when a registration is accepted, and what it adds to the table.
-/

set_option autoImplicit false

namespace SchemaWire.Schema.AliasTable

open Text (normalizeName)

variable {table next : AliasTable} {name given existing : String}

theorem resolve?_of_reserved (reserved : isReserved name = true) : table.resolve? name = none := by
  rw [resolve?, if_pos reserved]

theorem resolve?_name (type : Primitive) : table.resolve? type.name = some type := by
  have plain : isReserved type.name = false := by cases type <;> decide
  rw [resolve?, plain, if_neg Bool.false_ne_true, Primitive.ofName?_name]
  rfl

theorem resolve?_eq_lookup (plain : isReserved name = false) (other : Primitive.ofName? name = none) :
    table.resolve? name = table.entries.lookup name := by
  rw [resolve?, plain, if_neg Bool.false_ne_true, other]
  rfl

/-- A registration is accepted if neither name is a marker, the alias is not the name of a primitive
type and the target denotes a type. It records that type. -/
theorem register_eq_ok_iff :
    table.register given existing = .ok next ↔
      isReserved (normalizeName given) = false ∧ isReserved (normalizeName existing) = false ∧
        Primitive.ofName? (normalizeName given) = none ∧
        ∃ type, table.resolve? (normalizeName existing) = some type ∧
          next = ⟨(normalizeName given, type) :: table.entries⟩ := by
  simp only [register]
  cases isReserved (normalizeName given) with
  | true => simp
  | false =>
      cases isReserved (normalizeName existing) with
      | true => simp
      | false =>
          cases Primitive.ofName? (normalizeName given) with
          | some type => simp
          | none =>
              cases table.resolve? (normalizeName existing) with
              | none => simp
              | some type => simp [eq_comm]

/-- Keys are in the looked-up spelling and stand for nothing but their registration. -/
def KeysRegistrable (table : AliasTable) : Prop :=
  ∀ key ∈ table.entries.map Prod.fst,
    Text.Normalized key ∧ Primitive.ofName? key = none ∧ isReserved key = false

theorem keysRegistrable_initial : initial.KeysRegistrable := by
  intro key member
  have same : key = "bool" := List.mem_singleton.mp member
  subst same
  exact ⟨Text.normalized_normalizeName "bool", by decide, by decide⟩

theorem KeysRegistrable.register (registrable : table.KeysRegistrable)
    (accepted : table.register given existing = .ok next) : next.KeysRegistrable := by
  obtain ⟨plain, -, other, type, -, rfl⟩ := register_eq_ok_iff.mp accepted
  intro key member
  rcases List.mem_cons.mp member with rfl | earlier
  · exact ⟨Text.normalized_normalizeName given, other, plain⟩
  · exact registrable key earlier

end SchemaWire.Schema.AliasTable
