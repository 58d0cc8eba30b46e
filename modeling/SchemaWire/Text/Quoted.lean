import SchemaWire.Unicode.GraphemeExtend
import SchemaWire.Unicode.Printable

/-!
# Quoted text

How messages show a text or a character: between quotes, with control characters, the enclosing
quote, the backslash and everything that would not be seen written as escapes.
-/

set_option autoImplicit false

namespace SchemaWire.Text

/-- A code point as an escape: lower-case hexadecimal without padding, in braces. -/
def codePointEscape (c : Char) : String :=
  "\\u\x7b" ++ String.ofList (Nat.toDigits 16 c.toNat) ++ "\x7d"

/-- A character as it stands between two `quote`s. Characters that are not printable, and marks
that would be drawn onto the character before them, are written by code point. -/
def escapeChar (quote c : Char) : String :=
  if c = Char.ofNat 0 then "\\0"
  else if c = '\t' then "\\t"
  else if c = '\r' then "\\r"
  else if c = '\n' then "\\n"
  else if c = '\\' then "\\\\"
  else if c = quote then "\\" ++ c.toString
  else if Unicode.isCombining c || !Unicode.isPrintable c then codePointEscape c
  else c.toString

/-- A text in double quotes. Single quotes inside stay as they are. -/
def quoteText (text : String) : String :=
  "\"" ++ String.join (text.toList.map (escapeChar '"')) ++ "\""

/-- A character in single quotes. A double quote stays as it is. -/
def quoteChar (c : Char) : String :=
  "'" ++ escapeChar '\'' c ++ "'"

end SchemaWire.Text
