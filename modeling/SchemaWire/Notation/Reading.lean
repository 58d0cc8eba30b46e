import SchemaWire.Notation.Token
import SchemaWire.Schema.Definition

/-!
# Reading definitions

Tokens are read one at a time by a machine with a stack of open containers. Each token either
moves the machine or is the first at which no definition can go on, so an error is reported at the
earliest token possible.
-/

set_option autoImplicit false

namespace SchemaWire.Notation

open Schema (Definition)

/-- A container that is not closed yet and whose child is being read. -/
inductive Opened where
  /-- The fields read so far, and the name of the field whose child is being read. -/
  | mapping (fields : List (String × Definition)) (name : String)
  /-- The elements read so far. -/
  | sequence (items : List Definition)

/-- Where the machine stands between tokens; `outer` holds the containers around, innermost
first. -/
inductive Reading where
  /-- Before a definition that has to come. -/
  | node (outer : List Opened)
  /-- In a sequence, before an element or the closing bracket. -/
  | item (items : List Definition) (outer : List Opened)
  /-- In a mapping, before a field name or the closing brace. -/
  | field (fields : List (String × Definition)) (outer : List Opened)
  /-- After a field name. -/
  | colon (fields : List (String × Definition)) (name : String) (outer : List Opened)
  /-- After a field. -/
  | afterField (fields : List (String × Definition)) (outer : List Opened)
  /-- After an element. -/
  | afterItem (items : List Definition) (outer : List Opened)
  /-- After the whole definition. -/
  | complete (definition : Definition)

/-- What could have come instead of the token that stopped the machine. -/
inductive Expected where
  | node
  | fieldOrBrace
  | colon
  | commaOrBrace
  | commaOrBracket
  | endOfText
  deriving DecidableEq, Repr

def Expected.text : Expected → String
  | .node => "'\x7b', '[' or a type name"
  | .fieldOrBrace => "field name or '\x7d'"
  | .colon => "':'"
  | .commaOrBrace => "',' or '\x7d'"
  | .commaOrBracket => "',' or ']'"
  | .endOfText => "end of input"

/-- A text is not a definition: what was expected, the token that came instead, if one came, and
its line. -/
structure SyntaxError where
  line : Nat
  expected : Expected
  found : Option Token
  deriving DecidableEq, Repr

/-- How messages show the token that came, or the end of the text. -/
def foundText : Option Token → String
  | some token => token.text
  | none => "end of input"

def SyntaxError.message (e : SyntaxError) : String :=
  "syntax error at line " ++ toString e.line ++ ": expected " ++ e.expected.text ++
    ", found " ++ foundText e.found

namespace Reading

def expected : Reading → Expected
  | node _ => .node
  | item _ _ => .node
  | field _ _ => .fieldOrBrace
  | colon _ _ _ => .colon
  | afterField _ _ => .commaOrBrace
  | afterItem _ _ => .commaOrBracket
  | complete _ => .endOfText

/-- Hands a finished definition to the container around it. -/
def finish (definition : Definition) : List Opened → Reading
  | [] => complete definition
  | .mapping fields name :: outer => afterField (fields ++ [(name, definition)]) outer
  | .sequence items :: outer => afterItem (items ++ [definition]) outer

def begin? (outer : List Opened) : Token → Option Reading
  | .leftBrace => some (field [] outer)
  | .leftBracket => some (item [] outer)
  | .name text => some (finish (.type text) outer)
  | .quoted text => some (finish (.type text) outer)
  | _ => none

/-- Reads a token, if it can come in this state. A comma may stand before a closing bracket or
brace, but not alone. -/
def step? : Reading → Token → Option Reading
  | node outer, token => begin? outer token
  | item items outer, .rightBracket => some (finish (.sequence items) outer)
  | item items outer, token => begin? (.sequence items :: outer) token
  | field fields outer, .rightBrace => some (finish (.mapping fields) outer)
  | field fields outer, .name text => some (colon fields text outer)
  | field fields outer, .quoted text => some (colon fields text outer)
  | colon fields name outer, .colon => some (node (.mapping fields name :: outer))
  | afterField fields outer, .comma => some (field fields outer)
  | afterField fields outer, .rightBrace => some (finish (.mapping fields) outer)
  | afterItem items outer, .comma => some (item items outer)
  | afterItem items outer, .rightBracket => some (finish (.sequence items) outer)
  | _, _ => none

/-- Reads the remaining tokens of a text that ends on line `last`. -/
def run (last : Nat) : Reading → List Located → Except SyntaxError Definition
  | complete definition, [] => .ok definition
  | reading, [] => .error ⟨last, reading.expected, none⟩
  | reading, ⟨token, line⟩ :: rest =>
    match reading.step? token with
    | some next => next.run last rest
    | none => .error ⟨line, reading.expected, some token⟩

end Reading

def read (text : String) : Except SyntaxError Definition :=
  (Reading.node []).run (lastLine text) (tokens text)

end SchemaWire.Notation
