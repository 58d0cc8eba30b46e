import SchemaWire.Unicode.Casing
import SchemaWire.Unicode.Lowercase

/-!
# Lower case of a text

Characters are mapped one by one, except that a capital sigma becomes a final sigma at the end of
a word: a cased letter stands before it and none stands after it, where case-ignorable characters
are passed over on both sides.
-/

set_option autoImplicit false

namespace SchemaWire.Text

/-- Whether the first character that is not case-ignorable is cased. -/
def casedNext (text : List Char) : Bool :=
  match text.dropWhile Unicode.isCaseIgnorable with
  | [] => false
  | c :: _ => Unicode.isCased c

/-- The lower case of a capital sigma between the characters `before`, nearest first, and `after`. -/
def lowercaseSigma (before after : List Char) : Char :=
  if casedNext before && !casedNext after then 'ς' else 'σ'

/-- The lower case of a text that stands after the characters `before`, nearest first. -/
def lowercaseAfter (before : List Char) : List Char → List Char
  | [] => []
  | c :: rest =>
    (if c = 'Σ' then [lowercaseSigma before rest] else Unicode.lowercaseChar c) ++
      lowercaseAfter (c :: before) rest

def lowercase (text : List Char) : List Char :=
  lowercaseAfter [] text

end SchemaWire.Text
