import SchemaWire.Codec.Basic

/-!
# Passes by recursion on the layout

Measuring, writing and reading take the steps of a plan one after another and keep the open
containers on a stack. The same passes by recursion on the layout go from a container straight into
its children, which is the form in which their properties are proved.
-/

set_option autoImplicit false

namespace SchemaWire.Codec

open Schema (Layout)
open Wire (Read)

/-! ## Children -/

def fieldValue (path : Path) (entries : List (String × Value)) (name : String) :
    Except EncodeError Value :=
  match entries.lookup name with
  | some value => .ok value
  | none => .error (.missingField (path ++ [.field name]))

/-- The first of the items that stand from an index on in the sequence at a path. -/
def headValue (path : Path) (index : Nat) : List Value → Except EncodeError Value
  | item :: _ => .ok item
  | [] => .error (.missingField (path ++ [.index index]))

/-! ## Writing -/

def countBytes (counted : Bool) (count : Nat) : List UInt8 :=
  if counted then Wire.varuintBytes (UInt64.ofNat count) else []

mutual

def writeLayout (encoding : TextEncoding) (path : Path) (counted : Bool) (value : Value) :
    Layout → Except EncodeError (List UInt8)
  | .leaf type =>
    (writeLeaf encoding type value).mapError (LeafFault.toError path type encoding value)
  | .mapping fields =>
    match value with
    | .mapping entries => writeFields encoding path entries fields
    | other => .error (.typeMismatch path (.container .mapping) other)
  | .sequence heads tail =>
    match value with
    | .sequence items =>
      if heads.length ≤ items.length then do
        let first ← writeHeads encoding path 0 items heads
        let others ← writeItems
          (fun place item => writeLayout encoding place true item tail) path heads.length
          (items.drop heads.length)
        return first ++ (countBytes counted (items.drop heads.length).length ++ others)
      else .error (.shortSequence path heads.length items.length)
    | other => .error (.typeMismatch path (.container .sequence) other)

def writeFields (encoding : TextEncoding) (path : Path) (entries : List (String × Value)) :
    List (String × Layout) → Except EncodeError (List UInt8)
  | [] => .ok []
  | (name, layout) :: rest => do
    let value ← fieldValue path entries name
    let first ← writeLayout encoding (path ++ [.field name]) true value layout
    let others ← writeFields encoding path entries rest
    return first ++ others

/-- The bytes of the heads of a sequence, which are the first of the items from an index on. -/
def writeHeads (encoding : TextEncoding) (path : Path) (index : Nat) (items : List Value) :
    List Layout → Except EncodeError (List UInt8)
  | [] => .ok []
  | layout :: rest => do
    let value ← headValue path index items
    let first ← writeLayout encoding (path ++ [.index index]) true value layout
    let others ← writeHeads encoding path (index + 1) items.tail rest
    return first ++ others

end

/-! ## Measuring -/

def countLength (counted : Bool) (count : Nat) : Nat :=
  if counted then Wire.varuintLength (UInt64.ofNat count) else 0

mutual

/-- The number of bytes of every value, if there is one such number. -/
def layoutWidth? : Layout → Option Nat
  | .leaf type => type.width?
  | .mapping fields => fieldsWidth? fields
  | .sequence _ _ => none

def fieldsWidth? : List (String × Layout) → Option Nat
  | [] => some 0
  | (_, layout) :: rest => do
    let width ← layoutWidth? layout
    let others ← fieldsWidth? rest
    return width + others

end

/-- The size of repeated elements. Without the guard elements of one width are only counted. -/
def measureRepeated (options : Options) (width? : Option Nat)
    (measure : Path → Value → Except EncodeError Nat) (path : Path) (index : Nat)
    (items : List Value) : Except EncodeError Nat :=
  match width?, options.validate with
  | some width, false => .ok (width * items.length)
  | _, _ => sumOfItems measure path index items

mutual

/-- The size of a child at a path. Without the guard a leaf of fixed width is not looked at, even
if there is no child. -/
def measureLayout (options : Options) (path : Path) (counted : Bool)
    (child : Except EncodeError Value) : Layout → Except EncodeError Nat
  | .leaf type =>
    match type.width?, options.validate with
    | some width, false => .ok width
    | _, _ => do
      let value ← child
      (measureLeaf options type value).mapError
        (LeafFault.toError path type options.encoding value)
  | .mapping fields => do
    let value ← child
    match value with
    | .mapping entries => measureFields options path entries fields
    | other => .error (.typeMismatch path (.container .mapping) other)
  | .sequence heads tail => do
    let value ← child
    match value with
    | .sequence items =>
      if heads.length ≤ items.length then do
        let first ← measureHeads options path 0 items heads
        let others ← measureRepeated options (layoutWidth? tail)
          (fun place item => measureLayout options place true (.ok item) tail) path heads.length
          (items.drop heads.length)
        return first + (countLength counted (items.drop heads.length).length + others)
      else .error (.shortSequence path heads.length items.length)
    | other => .error (.typeMismatch path (.container .sequence) other)

def measureFields (options : Options) (path : Path) (entries : List (String × Value)) :
    List (String × Layout) → Except EncodeError Nat
  | [] => .ok 0
  | (name, layout) :: rest => do
    let first ← measureLayout options (path ++ [.field name]) true (fieldValue path entries name)
      layout
    let others ← measureFields options path entries rest
    return first + others

def measureHeads (options : Options) (path : Path) (index : Nat) (items : List Value) :
    List Layout → Except EncodeError Nat
  | [] => .ok 0
  | layout :: rest => do
    let first ← measureLayout options (path ++ [.index index]) true (headValue path index items)
      layout
    let others ← measureHeads options path (index + 1) items.tail rest
    return first + others

end

/-! ## Reading -/

mutual

def readLayout (encoding : TextEncoding) (counted : Bool) : Layout → Read Value
  | .leaf type => readLeaf encoding type
  | .mapping fields => do
    let entries ← readFields encoding fields
    return .ofFields entries
  | .sequence heads tail => do
    let first ← readHeads encoding heads
    let others ←
      if counted then do
        let count ← readCount
        Read.times (readLayout encoding true tail) count
      else Read.toEnd (readLayout encoding true tail)
    return .sequence (first ++ others)

def readFields (encoding : TextEncoding) : List (String × Layout) → Read (List (String × Value))
  | [] => return []
  | (name, layout) :: rest => do
    let value ← readLayout encoding true layout
    let others ← readFields encoding rest
    return (name, value) :: others

def readHeads (encoding : TextEncoding) : List Layout → Read (List Value)
  | [] => return []
  | layout :: rest => do
    let value ← readLayout encoding true layout
    let others ← readHeads encoding rest
    return value :: others

end

end SchemaWire.Codec
