import SchemaWire.Text.Name
import SchemaWire.Text.Quoted

/-!
# Tokens of the schema notation

A text is read character by character into tokens: brackets, colons and commas, bare names, and
quoted names whose escapes are resolved. White space and line comments, which start with `#` or
`//`, separate tokens and are dropped. Every character belongs to some token or is dropped, so
reading never fails; a character that starts no token is a token of its own, and so is a quoted
name that is not closed.
-/

set_option autoImplicit false

namespace SchemaWire.Notation

inductive Token where
  | leftBrace
  | rightBrace
  | leftBracket
  | rightBracket
  | colon
  | comma
  /-- A name without quotes. -/
  | name (text : String)
  /-- A name in quotes, without them and with its escapes resolved. -/
  | quoted (text : String)
  /-- A character that starts no token. -/
  | unexpected (c : Char)
  /-- A quoted name that the text does not close. -/
  | unterminated
  deriving DecidableEq, Repr

/-- A token and the line on which its first character stands; the first line is 1. -/
structure Located where
  token : Token
  line : Nat
  deriving DecidableEq, Repr

/-- Where the reader of characters stands. Characters of an unfinished token are kept in reverse,
with the line on which the token began. -/
inductive Scanning where
  | between
  | comment
  | name (line : Nat) (text : List Char)
  | quoted (line : Nat) (quote : Char) (text : List Char)
  /-- After a backslash inside quotes. -/
  | escaped (line : Nat) (quote : Char) (text : List Char)
  deriving DecidableEq, Repr

def Token.ofChar (c : Char) : Token :=
  if c = '\x7b' then .leftBrace
  else if c = '\x7d' then .rightBrace
  else if c = '[' then .leftBracket
  else if c = ']' then .rightBracket
  else if c = ':' then .colon
  else if c = ',' then .comma
  else .unexpected c

/-- What the character after a backslash stands for: a line feed for `n`, a tab for `t`, and any
other character for itself. -/
def unescape (c : Char) : Char :=
  if c = 'n' then '\n' else if c = 't' then '\t' else c

/-- Reads a character that stands outside every token; `ahead` is the character after it. -/
def scanOutside (line : Nat) (c : Char) (ahead : Option Char) : List Located × Scanning :=
  if Unicode.isWhiteSpace c then ([], .between)
  else if c = '#' then ([], .comment)
  else if c = '/' ∧ ahead = some '/' then ([], .comment)
  else if Text.isNameChar c then ([], .name line [c])
  else if c = '"' ∨ c = '\'' then ([], .quoted line c [])
  else ([⟨Token.ofChar c, line⟩], .between)

/-- Reads one character: the tokens that it ends, and where the reader stands after it. A name ends
before the first character that cannot belong to it. -/
def scanChar (line : Nat) (c : Char) (ahead : Option Char) : Scanning → List Located × Scanning
  | .between => scanOutside line c ahead
  | .comment => ([], if c = '\n' then .between else .comment)
  | .name start text =>
    if Text.isNameChar c then ([], .name start (c :: text))
    else
      let (tokens, next) := scanOutside line c ahead
      (⟨.name (String.ofList text.reverse), start⟩ :: tokens, next)
  | .quoted start quote text =>
    if c = quote then ([⟨.quoted (String.ofList text.reverse), start⟩], .between)
    else if c = '\\' then ([], .escaped start quote text)
    else ([], .quoted start quote (c :: text))
  | .escaped start quote text => ([], .quoted start quote (unescape c :: text))

/-- The tokens that the end of the text ends. -/
def scanEnd : Scanning → List Located
  | .between => []
  | .comment => []
  | .name start text => [⟨.name (String.ofList text.reverse), start⟩]
  | .quoted start _ _ => [⟨.unterminated, start⟩]
  | .escaped start _ _ => [⟨.unterminated, start⟩]

def lineAfter (line : Nat) (c : Char) : Nat :=
  if c = '\n' then line + 1 else line

/-- The tokens of the rest of a text, from a state of the reader and a line on. -/
def scan (scanning : Scanning) (line : Nat) : List Char → List Located
  | [] => scanEnd scanning
  | c :: rest =>
    let (tokens, next) := scanChar line c rest.head? scanning
    tokens ++ scan next (lineAfter line c) rest

def tokens (text : String) : List Located :=
  scan .between 1 text.toList

def lastLine (text : String) : Nat :=
  text.toList.foldl lineAfter 1

def Token.text : Token → String
  | .leftBrace => "LBrace"
  | .rightBrace => "RBrace"
  | .leftBracket => "LBracket"
  | .rightBracket => "RBracket"
  | .colon => "Colon"
  | .comma => "Comma"
  | .name text => "Name(" ++ Text.quoteText text ++ ")"
  | .quoted text => "Quoted(" ++ Text.quoteText text ++ ")"
  | .unexpected c => "'" ++ c.toString ++ "'"
  | .unterminated => "unterminated string"

end SchemaWire.Notation
