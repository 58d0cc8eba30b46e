import Mathlib.Data.List.Basic
import SchemaWire.Notation.Token
import SchemaWire.Proofs.Wire.Utf16
import SchemaWire.Schema.Definition
import SchemaWire.Wire.Hex

/-!
# JSON documents

The JSON texts of objects, arrays and strings, and what they denote, apart from any way of reading
them. A string denotes UTF-16 units, which a backslash and `u` write one by one, and so the text
that has these units, if there is one. The schema notation has escapes of its own: it knows only
some of those of JSON, and of any other it drops the backslash. So a document with such an escape
does not denote the definition with the names as the notation reads them.
-/

set_option autoImplicit false

namespace SchemaWire.Notation.Json

open Schema (Definition)
open Wire

/-! ## Strings -/

/-- The escapes of a backslash and one character. -/
inductive Escape where
  | quote
  | backslash
  | slash
  | backspace
  | formFeed
  | lineFeed
  | carriageReturn
  | tab
  deriving DecidableEq, Repr

/-- The character behind the backslash. -/
def Escape.mark : Escape → Char
  | quote => '"'
  | backslash => '\\'
  | slash => '/'
  | backspace => 'b'
  | formFeed => 'f'
  | lineFeed => 'n'
  | carriageReturn => 'r'
  | tab => 't'

/-- The character that the escape denotes. -/
def Escape.char : Escape → Char
  | quote => '"'
  | backslash => '\\'
  | slash => '/'
  | backspace => '\x08'
  | formFeed => '\x0c'
  | lineFeed => '\n'
  | carriageReturn => '\r'
  | tab => '\t'

/-- A hexadecimal digit of either case with its value. -/
structure HexDigit where
  char : Char
  value : Nat
  denotes : Hex.digitValue? char = some value

/-- A part of a string between its quotes. -/
inductive Piece where
  /-- A character that stands for itself: no control character, quote or backslash. -/
  | plain (c : Char) (unescaped : ' ' ≤ c ∧ c ≠ '"' ∧ c ≠ '\\')
  | escape (escape : Escape)
  /-- `\u` and the four digits of a UTF-16 unit. -/
  | unit (first second third fourth : HexDigit)

namespace Piece

def written : Piece → List Char
  | plain c _ => [c]
  | escape e => ['\\', e.mark]
  | unit first second third fourth =>
    ['\\', 'u', first.char, second.char, third.char, fourth.char]

/-- The UTF-16 units that the piece denotes. -/
def units : Piece → List Nat
  | plain c _ => Utf16.encodeChar c
  | escape e => Utf16.encodeChar e.char
  | unit first second third fourth =>
    [((first.value * 16 + second.value) * 16 + third.value) * 16 + fourth.value]

/-- The characters as which the notation reads the piece. -/
def asRead : Piece → List Char
  | plain c _ => [c]
  | escape e => [unescape e.mark]
  | unit first second third fourth => ['u', first.char, second.char, third.char, fourth.char]

/-- Not one of the escapes that the notation does not know. -/
def Known : Piece → Prop
  | plain _ _ => True
  | escape e => e ≠ .backspace ∧ e ≠ .formFeed ∧ e ≠ .carriageReturn
  | unit _ _ _ _ => False

end Piece

/-- The pieces denote the text with these UTF-16 units. Surrogates stand for a character in pairs
only, so pieces with a lone one denote no text. -/
def Denotes (pieces : List Piece) (text : String) : Prop :=
  Utf16.encode text.toList = pieces.flatMap Piece.units

/-- The name as which the notation reads a string. -/
def readName (pieces : List Piece) : String :=
  String.ofList (pieces.flatMap Piece.asRead)

/-- A string with its quotes. -/
def quoted (pieces : List Piece) : List Char :=
  '"' :: (pieces.flatMap Piece.written ++ ['"'])

/-! ## Documents -/

/-- A document of strings, objects and arrays; members keep their order and may have the same
name. -/
inductive Document where
  | string (pieces : List Piece)
  | object (members : List (List Piece × Document))
  | array (items : List Document)

namespace Document

mutual

/-- The definition of the structure of the document, where each string becomes some name. -/
def definition (name : List Piece → String) : Document → Definition
  | string pieces => .type (name pieces)
  | object members => .mapping (fields name members)
  | array items => .sequence (elements name items)

def fields (name : List Piece → String) :
    List (List Piece × Document) → List (String × Definition)
  | [] => []
  | (key, child) :: rest => (name key, child.definition name) :: fields name rest

def elements (name : List Piece → String) : List Document → List Definition
  | [] => []
  | item :: rest => item.definition name :: elements name rest

end

/-- The string is a name or a leaf of the document. -/
inductive HasString (pieces : List Piece) : Document → Prop where
  | string : HasString pieces (.string pieces)
  | name {members : List (List Piece × Document)} {child : Document}
      (member : (pieces, child) ∈ members) : HasString pieces (.object members)
  | child {members : List (List Piece × Document)} {name : List Piece} {child : Document}
      (member : (name, child) ∈ members) (inside : HasString pieces child) :
      HasString pieces (.object members)
  | item {items : List Document} {item : Document} (member : item ∈ items)
      (inside : HasString pieces item) : HasString pieces (.array items)

variable {pieces : List Piece}

@[simp]
theorem hasString_string_iff {own : List Piece} :
    (string own).HasString pieces ↔ pieces = own := by
  constructor
  · rintro ⟨⟩
    rfl
  · rintro rfl
    exact .string

@[simp]
theorem hasString_object_iff {members : List (List Piece × Document)} :
    (object members).HasString pieces ↔
      ∃ member ∈ members, pieces = member.1 ∨ member.2.HasString pieces := by
  constructor
  · intro occurs
    cases occurs with
    | name member => exact ⟨_, member, .inl rfl⟩
    | child member inside => exact ⟨_, member, .inr inside⟩
  · rintro ⟨member, inside, rfl | within⟩
    · exact .name inside
    · exact .child inside within

@[simp]
theorem hasString_array_iff {items : List Document} :
    (array items).HasString pieces ↔ ∃ item ∈ items, item.HasString pieces := by
  constructor
  · intro occurs
    cases occurs with
    | item member inside => exact ⟨_, member, inside⟩
  · rintro ⟨item, member, inside⟩
    exact .item member inside

/-- The definition in which every string is the text that it denotes. -/
def Denotes (document : Document) (definition : Definition) : Prop :=
  ∃ name, (∀ pieces, document.HasString pieces → Json.Denotes pieces (name pieces)) ∧
    definition = document.definition name

end Document

/-! ## Texts -/

/-- White space between tokens. -/
def Space (text : List Char) : Prop :=
  ∀ c ∈ text, c ∈ [' ', '\t', '\n', '\r']

/-- A bracket, a colon or a comma with white space around it. -/
inductive Structural (mark : Char) : List Char → Prop where
  | mk {before after : List Char} (left : Space before) (right : Space after) :
      Structural mark (before ++ mark :: after)

mutual

/-- How a document is written. -/
inductive Spells : Document → List Char → Prop where
  | string (pieces : List Piece) : Spells (.string pieces) (quoted pieces)
  | emptyObject {opening closing : List Char} (left : Structural '\x7b' opening)
      (right : Structural '\x7d' closing) : Spells (.object []) (opening ++ closing)
  | object {members : List (List Piece × Document)} {opening text closing : List Char}
      (left : Structural '\x7b' opening) (inside : SpellsMembers members text)
      (right : Structural '\x7d' closing) : Spells (.object members) (opening ++ (text ++ closing))
  | emptyArray {opening closing : List Char} (left : Structural '[' opening)
      (right : Structural ']' closing) : Spells (.array []) (opening ++ closing)
  | array {items : List Document} {opening text closing : List Char}
      (left : Structural '[' opening) (inside : SpellsItems items text)
      (right : Structural ']' closing) : Spells (.array items) (opening ++ (text ++ closing))

/-- A name and what it names. -/
inductive SpellsMember : List Piece × Document → List Char → Prop where
  | mk {name : List Piece} {child : Document} {colon text : List Char}
      (separator : Structural ':' colon) (value : Spells child text) :
      SpellsMember (name, child) (quoted name ++ (colon ++ text))

/-- One or more members with a comma between any two. -/
inductive SpellsMembers : List (List Piece × Document) → List Char → Prop where
  | one {member : List Piece × Document} {text : List Char} (first : SpellsMember member text) :
      SpellsMembers [member] text
  | more {member : List Piece × Document} {members : List (List Piece × Document)}
      {text comma rest : List Char} (first : SpellsMember member text)
      (separator : Structural ',' comma) (others : SpellsMembers members rest) :
      SpellsMembers (member :: members) (text ++ (comma ++ rest))

/-- One or more items with a comma between any two. -/
inductive SpellsItems : List Document → List Char → Prop where
  | one {item : Document} {text : List Char} (first : Spells item text) : SpellsItems [item] text
  | more {item : Document} {items : List Document} {text comma rest : List Char}
      (first : Spells item text) (separator : Structural ',' comma)
      (others : SpellsItems items rest) : SpellsItems (item :: items) (text ++ (comma ++ rest))

end

/-- A whole text of a document. -/
inductive Document.Text (document : Document) : List Char → Prop where
  | mk {before text after : List Char} (left : Space before) (spells : Spells document text)
      (right : Space after) : document.Text (before ++ (text ++ after))

/-! ## What strings denote -/

namespace Piece

/-- An escape that the notation does not know is read as other units, and never as fewer. -/
theorem known_iff (piece : Piece) : piece.Known ↔ Utf16.encode piece.asRead = piece.units := by
  cases piece with
  | plain c unescaped => simp [Known, asRead, units, Utf16.encode]
  | escape e => cases e <;> simp [Known, asRead, units] <;> decide
  | unit first second third fourth =>
      refine ⟨False.elim, fun same => ?_⟩
      have long := Utf16.length_le_encode (unit first second third fourth).asRead
      rw [same] at long
      simp [asRead, units] at long

theorem length_units_le (piece : Piece) :
    piece.units.length ≤ (Utf16.encode piece.asRead).length := by
  cases piece with
  | plain c unescaped => exact Nat.le_of_eq (congrArg _ (List.flatMap_singleton _ _).symm)
  | escape e => cases e <;> decide
  | unit first second third fourth =>
      refine Nat.le_trans ?_ (Utf16.length_le_encode _)
      simp [asRead, units]

end Piece

theorem encode_readName (pieces : List Piece) :
    Utf16.encode (readName pieces).toList =
      pieces.flatMap fun piece => Utf16.encode piece.asRead := by
  rw [readName, String.toList_ofList, Utf16.encode, List.flatMap_assoc]
  rfl

theorem length_flatMap_units_le (pieces : List Piece) :
    (pieces.flatMap Piece.units).length ≤
      (pieces.flatMap fun piece => Utf16.encode piece.asRead).length := by
  induction pieces with
  | nil => exact Nat.le_refl 0
  | cons piece rest ih =>
      rw [List.flatMap_cons, List.flatMap_cons, List.length_append, List.length_append]
      exact Nat.add_le_add piece.length_units_le ih

/-- No piece is read as fewer units than it denotes, so pieces that are read as what they denote are
so one by one. -/
theorem known_of_flatMap_eq {pieces : List Piece}
    (same : (pieces.flatMap fun piece => Utf16.encode piece.asRead) =
      pieces.flatMap Piece.units) : ∀ piece ∈ pieces, piece.Known := by
  induction pieces with
  | nil => exact List.forall_mem_nil _
  | cons piece rest ih =>
      rw [List.flatMap_cons, List.flatMap_cons] at same
      have lengths := congrArg List.length same
      rw [List.length_append, List.length_append] at lengths
      have first := piece.length_units_le
      have others := length_flatMap_units_le rest
      obtain ⟨sameFirst, sameRest⟩ := List.append_inj same (by omega)
      exact List.forall_mem_cons.mpr ⟨piece.known_iff.mpr sameFirst, ih sameRest⟩

theorem denotes_readName_iff {pieces : List Piece} :
    Denotes pieces (readName pieces) ↔ ∀ piece ∈ pieces, piece.Known := by
  rw [Denotes, encode_readName]
  exact ⟨known_of_flatMap_eq, fun known =>
    List.flatMap_congr fun piece member => piece.known_iff.mp (known piece member)⟩

/-! ## What documents denote -/

variable {first second : List Piece → String}

mutual

/-- Definitions of the same structure differ in a name only. -/
theorem Document.definition_eq_iff : ∀ document : Document,
    document.definition first = document.definition second ↔
      ∀ pieces, document.HasString pieces → first pieces = second pieces
  | .string pieces => by
      rw [definition, definition, Definition.type.injEq]
      simp only [hasString_string_iff, forall_eq]
  | .object members => by
      rw [definition, definition, Definition.mapping.injEq, Document.fields_eq_iff members]
      simp only [hasString_object_iff]
      constructor
      · rintro each pieces ⟨member, inside, rfl | within⟩
        · exact (each member inside).1
        · exact (each member inside).2 pieces within
      · exact fun each member inside => ⟨each _ ⟨member, inside, .inl rfl⟩,
          fun pieces within => each pieces ⟨member, inside, .inr within⟩⟩
  | .array items => by
      rw [definition, definition, Definition.sequence.injEq, Document.elements_eq_iff items]
      simp only [hasString_array_iff]
      constructor
      · rintro each pieces ⟨item, member, inside⟩
        exact each item member pieces inside
      · exact fun each item member pieces inside => each pieces ⟨item, member, inside⟩

theorem Document.fields_eq_iff : ∀ members : List (List Piece × Document),
    fields first members = fields second members ↔ ∀ member ∈ members,
      first member.1 = second member.1 ∧
        ∀ pieces, member.2.HasString pieces → first pieces = second pieces
  | [] => by simp [fields]
  | (key, child) :: rest => by
      rw [fields, fields, List.cons.injEq, Prod.mk.injEq, Document.definition_eq_iff child,
        Document.fields_eq_iff rest, List.forall_mem_cons]

theorem Document.elements_eq_iff : ∀ items : List Document,
    elements first items = elements second items ↔ ∀ item ∈ items,
      ∀ pieces, item.HasString pieces → first pieces = second pieces
  | [] => by simp [elements]
  | item :: rest => by
      rw [elements, elements, List.cons.injEq, Document.definition_eq_iff item,
        Document.elements_eq_iff rest, List.forall_mem_cons]

end

/-- Names that are read otherwise than they are denoted make another definition. -/
theorem Document.denotes_definition_iff {document : Document} :
    document.Denotes (document.definition readName) ↔
      ∀ pieces, document.HasString pieces → ∀ piece ∈ pieces, piece.Known := by
  constructor
  · rintro ⟨name, denotes, same⟩ pieces occurs
    have read := (definition_eq_iff document).mp same pieces occurs
    exact denotes_readName_iff.mp (read ▸ denotes pieces occurs)
  · exact fun known =>
      ⟨readName, fun pieces occurs => denotes_readName_iff.mpr (known pieces occurs), rfl⟩

end SchemaWire.Notation.Json
