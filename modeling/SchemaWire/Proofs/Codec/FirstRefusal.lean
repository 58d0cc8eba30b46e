import SchemaWire.Proofs.Codec.DecodedLeaves
import SchemaWire.Proofs.Codec.RoundTrip
import SchemaWire.Proofs.Codec.VisitingOrder

/-!
# The first leaf that the guard refuses

Of a value that is read back as it is, the guard refuses only negative integers at leaves of type
`varuint`, and reports the one that comes first in the canonical order of paths.
-/

set_option autoImplicit false

namespace SchemaWire.Codec

open Outcome
open Schema (Layout)

/-! ## Values that are read back -/

/-- A text that is read from bytes under an encoding. Under ASCII bytes past its range are read, too,
but no such text is written. -/
structure TextOf (encoding : TextEncoding) (text : String) : Prop where
  read : ∃ bytes, Wire.textOfPayload encoding bytes = .ok text
  ascii : encoding = .ascii → ∀ c ∈ text.toList, c.toNat < 0x80

/-- A value of exactly the shape of a layout, with leaves of their types and texts of the
encoding. -/
structure Fits (encoding : TextEncoding) (layout : Layout) (value : Value) : Prop where
  canonical : CanonicalValue encoding layout value
  texts {path : Path} {text : String} :
    LeafAt layout value path .string (.text text) → TextOf encoding text

/-- A negative integer stands at a leaf that holds unsigned integers of any size. -/
structure NegativeAt (layout : Layout) (value : Value) (path : Path) (number : Int64) : Prop where
  leafAt : LeafAt layout value path .varuint (.integer number)
  negative : number < 0

variable {encoding : TextEncoding} {layout : Layout} {value : Value}

theorem TextOf.exists_payload {text : String} (textOf : TextOf encoding text) :
    ∃ bytes, Wire.payload encoding text = .ok bytes := by
  obtain ⟨bytes, content⟩ := textOf.read
  refine (exists_payload_iff content).mpr ?_
  rintro ⟨ascii, c, member, large⟩
  exact Nat.not_lt.mpr large (textOf.ascii ascii c member)

namespace Fits

theorem takes (fits : Fits encoding layout value) {path : Path} {type : Primitive} {leaf : Value}
    (leafAt : LeafAt layout value path type leaf) : (writing encoding).Takes type leaf := by
  have canonical := fits.canonical.shaped.at leafAt
  by_cases isText : type = .string
  · subst isText
    obtain ⟨text, rfl, -⟩ := canonical
    exact takes_writing_text_iff.mpr (fits.texts leafAt).exists_payload
  · exact takes_writing_of_canonical canonical isText

theorem exists_written (fits : Fits encoding layout value) (wellFormed : layout.WellFormed) :
    ∃ bytes, writeLayout encoding [] false value layout = .ok bytes :=
  exists_writeLayout_iff.mpr
    ((fits.canonical.shaped.iff_leaves wellFormed).mpr fun _ _ _ leafAt => fits.takes leafAt)

/-- What is written is read back as it was. -/
theorem decode_written (fits : Fits encoding layout value) (wellFormed : layout.WellFormed)
    {bytes : List UInt8} (written : writeLayout encoding [] false value layout = .ok bytes)
    (bounded : bytes.length < 2 ^ 63) (validate : Bool) :
    decode ⟨layout.plan, encoding, validate⟩ bytes = .ok value := by
  obtain ⟨result, pieces, success, form, same⟩ := writesForm encoding layout written
  cases success.symm.trans (canonicalValue?_eq wellFormed fits.canonical)
  exact (decode_eq_ok_iff_form wellFormed bounded).mpr ⟨pieces, form, same⟩

/-- The guard refuses negative integers as unsigned ones of any size and nothing else. -/
theorem guard_eq (fits : Fits encoding layout value) {path : Path} {type : Primitive} {leaf : Value}
    (leafAt : LeafAt layout value path type leaf) :
    guard type leaf = .ok () ∨
      ∃ number, type = .varuint ∧ leaf = .integer number ∧ number < 0 := by
  have canonical := fits.canonical.shaped.at leafAt
  rcases declares_of_canonical canonical with declares | ⟨rfl, number, rfl, negative⟩
  · exact .inl ((guard_eq_ok_iff canonical).mpr declares)
  · exact .inr ⟨number, rfl, rfl, negative⟩

theorem guarded_iff (fits : Fits encoding layout value) :
    Guarded layout value ↔ ∀ path number, ¬NegativeAt layout value path number := by
  constructor
  · intro guarded path number ⟨leafAt, negative⟩
    have accepted := guarded path _ _ leafAt
    exact Int64.not_le.mpr negative ((guard_integer_eq_ok_iff rfl).mp accepted).1
  · intro none path type leaf leafAt
    rcases fits.guard_eq leafAt with accepted | ⟨number, rfl, rfl, negative⟩
    · exact accepted
    · exact absurd ⟨leafAt, negative⟩ (none path number)

end Fits

/-! ## The first refusal -/

/-- A leaf that the guard refuses, and no such leaf comes before it. -/
structure FirstNegative (layout : Layout) (value : Value) (path : Path) (number : Int64) : Prop where
  negativeAt : NegativeAt layout value path number
  first {other : Path} {found : Int64} : NegativeAt layout value other found → ¬other.Before path

/-- What one pass accepts and another one does not is a leaf. -/
theorem Node.leaf_of_outcome {α β : Type} {pass : Pass α} {other : Pass β} {node : Node} {result : α}
    {e : EncodeError} (accepted : node.outcome pass = .ok result)
    (refused : node.outcome other = .error e) :
    ∃ type leaf, node.layout = .leaf type ∧ node.value? = some leaf ∧
      (other.leaf type leaf).mapError (LeafFault.toError node.path type other.encoding leaf) =
        .error e := by
  obtain ⟨path, layout, value?⟩ := node
  cases value? with
  | none => cases accepted
  | some value =>
      cases layout with
      | leaf type => exact ⟨type, value, rfl, rfl, refused⟩
      | mapping fields =>
          cases value with
          | mapping entries => cases refused
          | boolean | integer | float | text | bytes | sequence => cases accepted
      | sequence heads tail =>
          cases value with
          | sequence items =>
              by_cases long : heads.length ≤ items.length
              · cases (Node.outcome_of_long other path tail long).symm.trans refused
              · cases (Node.outcome_of_short pass path tail long).symm.trans accepted
          | boolean | integer | float | text | bytes | mapping => cases accepted

theorem NegativeAt.refused {path : Path} {number : Int64}
    (negativeAt : NegativeAt layout value path number) :
    (Part.node ⟨path, .leaf .varuint, some (.integer number)⟩).outcome (measuring encoding) =
      .error (.outOfRange path .varuint (.integer number)) := by
  have outside : guard .varuint (.integer number) = .error .range :=
    if_neg fun inside => Int64.not_le.mpr negativeAt.negative inside.1
  have measured : measureLeaf ⟨encoding, true⟩ .varuint (.integer number) = .error .range :=
    measureLeaf_of_refused outside
  exact mapError_eq_error_iff.mpr ⟨.range, measured, rfl⟩

theorem Fits.firstNegative_of_fault (fits : Fits encoding layout value) (ordered : layout.Ordered)
    {node : Node} {e : EncodeError} (fault : FirstFault (measuring encoding) layout value node e) :
    ∃ number, FirstNegative layout value node.path number ∧
      e = .outOfRange node.path .varuint (.integer number) := by
  have shaped := fits.canonical.shaped
  have writable : (writing encoding).Accepts (partsOf [] false (some value) layout) :=
    (acceptsShaped (writing encoding) layout).mpr
      ((shaped.iff_leaves ordered.wellFormed).mpr fun _ _ _ leafAt => fits.takes leafAt)
  obtain ⟨result, accepted⟩ := writable _ fault.mem
  obtain ⟨type, leaf, isLeaf, held, refused⟩ := Node.leaf_of_outcome accepted fault.fails
  have leafAt : LeafAt layout value node.path type leaf :=
    ⟨isLeaf ▸ fault.layout_eq, held ▸ fault.value_eq⟩
  rcases fits.guard_eq leafAt with accepted | ⟨number, rfl, rfl, negative⟩
  · obtain ⟨size, measured⟩ := (takes_measuring_iff (fits.takes leafAt)).mpr accepted
    rw [measured] at refused
    cases refused
  · have negativeAt : NegativeAt layout value node.path number := ⟨leafAt, negative⟩
    refine ⟨number, ⟨negativeAt, ?first⟩, ?error⟩
    case error =>
      have same : node = ⟨node.path, .leaf .varuint, some (.integer number)⟩ := by
        rw [← isLeaf, ← held]
      have failure := fault.fails
      rw [same] at failure
      exact Except.error.inj (failure.symm.trans negativeAt.refused)
    case first =>
      intro other found another earlier
      obtain ⟨before, after, split, passed⟩ := fault.first
      have visited : .node ⟨other, .leaf .varuint, some (.integer found)⟩ ∈
          before ++ .node node :: after := split ▸ another.leafAt.mem_partsOf shaped
      have order : (partsOf [] false (some value) layout).Pairwise Part.Before :=
        ordered_partsOf ordered
      rw [split] at order
      rcases List.mem_append.mp visited with inside | inside
      · obtain ⟨size, measured⟩ := passed _ inside
        cases measured.symm.trans another.refused
      · rcases List.mem_cons.mp inside with same | inside
        · cases same
          exact Path.before_asymm earlier earlier
        · have later := (List.pairwise_cons.mp (List.pairwise_append.mp order).2.1).1 _ inside
          exact Path.before_asymm earlier later

/-- With the guard on a value is refused for its first negative integer at an unsigned leaf. -/
theorem Fits.encode_of_negative (fits : Fits encoding layout value) (ordered : layout.Ordered)
    (negative : ∃ path number, NegativeAt layout value path number) :
    ∃ path number, FirstNegative layout value path number ∧
      encode ⟨layout.plan, encoding, true⟩ value =
        .error (.outOfRange path .varuint (.integer number)) := by
  obtain ⟨bytes, written⟩ := fits.exists_written ordered.wellFormed
  cases measured : measure ⟨encoding, true⟩ layout.plan value with
  | ok size =>
      obtain ⟨path, number, negativeAt⟩ := negative
      have guarded :=
        (exists_measure_strict_iff_guarded ordered.wellFormed written).mp ⟨size, measured⟩
      exact absurd negativeAt (fits.guarded_iff.mp guarded path number)
  | error e =>
      have run := measured
      rw [measure_strict, measuresParts] at run
      obtain ⟨node, fault⟩ := (run_eq_error_iff ordered.wellFormed).mp run
      obtain ⟨number, first, rfl⟩ := fits.firstNegative_of_fault ordered fault
      refine ⟨node.path, number, first, ?_⟩
      rw [encode, encodedLength, measured]
      rfl

end SchemaWire.Codec
