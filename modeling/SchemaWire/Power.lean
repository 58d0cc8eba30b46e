/-!
# Powers

Powers of natural numbers and of integers are those of the core library, also where another library
defines powers in every monoid. So a definition here means the same beside any import. Powers
outside of the namespace are left as they are.
-/

set_option autoImplicit false

namespace SchemaWire

/-- Holds only where the namespace is open, and so do the powers below. -/
class CorePowers : Prop

scoped instance : CorePowers := ⟨⟩

/-- The powers of the core library, preferred to all others. -/
@[default_instance 20000]
instance (priority := high) corePower {α : Type} [NatPow α] [CorePowers] : Pow α Nat :=
  instPowNat

end SchemaWire
