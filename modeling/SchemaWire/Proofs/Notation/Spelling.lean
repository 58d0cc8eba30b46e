import SchemaWire.Notation.Token
import SchemaWire.Proofs.Text.Name

/-!
# Spelling tokens

How tokens are written down, apart from any way of reading them: names with or without quotes, and
white space and comments between tokens. Reading the characters gives the tokens back, provided that
no two names stand side by side; a name that runs up against a comment, a quote or a bracket ends
there.
-/

set_option autoImplicit false

namespace SchemaWire.Notation

/-- The mark with which a comment begins. -/
inductive CommentMark : List Char → Prop where
  | number : CommentMark ['#']
  | slashes : CommentMark ['/', '/']

/-- White space, and comments with the line feeds that end them. -/
inductive Blank : List Char → Prop where
  | nil : Blank []
  | space {c : Char} {rest : List Char} (white : Unicode.isWhiteSpace c = true)
      (others : Blank rest) : Blank (c :: rest)
  | comment {mark line rest : List Char} (marked : CommentMark mark) (single : '\n' ∉ line)
      (others : Blank rest) : Blank (mark ++ (line ++ '\n' :: rest))

/-- What stands behind the last token. The end of the text ends a comment as well as a line feed
does. -/
inductive Closing : List Char → Prop where
  | blank {text : List Char} (blank : Blank text) : Closing text
  | comment {text mark line : List Char} (blank : Blank text) (marked : CommentMark mark)
      (single : '\n' ∉ line) : Closing (text ++ (mark ++ line))

/-- How characters are written between quotes. The quote and the backslash need a backslash; a line
feed and a tab may have an escape of their own. -/
inductive Escaped (quote : Char) : List Char → List Char → Prop where
  | nil : Escaped quote [] []
  | plain {c : Char} {text written : List Char} (notQuote : c ≠ quote) (notBackslash : c ≠ '\\')
      (others : Escaped quote text written) : Escaped quote (c :: text) (c :: written)
  | backslash {c : Char} {text written : List Char} (special : c = quote ∨ c = '\\')
      (others : Escaped quote text written) : Escaped quote (c :: text) ('\\' :: c :: written)
  | lineFeed {text written : List Char} (others : Escaped quote text written) :
      Escaped quote ('\n' :: text) ('\\' :: 'n' :: written)
  | tab {text written : List Char} (others : Escaped quote text written) :
      Escaped quote ('\t' :: text) ('\\' :: 't' :: written)

/-- What is written between quotes for a text. A backslash takes the next character along. -/
inductive Content (quote : Char) : List Char → List Char → Prop where
  | nil : Content quote [] []
  | plain {c : Char} {written text : List Char} (notQuote : c ≠ quote) (notBackslash : c ≠ '\\')
      (others : Content quote written text) : Content quote (c :: written) (c :: text)
  | escape (c : Char) {written text : List Char} (others : Content quote written text) :
      Content quote ('\\' :: c :: written) (unescape c :: text)

/-- How a token is written. Only a name of name characters goes without quotes. -/
inductive Spelled : Token → List Char → Prop where
  | leftBrace : Spelled .leftBrace ['\x7b']
  | rightBrace : Spelled .rightBrace ['\x7d']
  | leftBracket : Spelled .leftBracket ['[']
  | rightBracket : Spelled .rightBracket [']']
  | colon : Spelled .colon [':']
  | comma : Spelled .comma [',']
  | name {text : String} (nonempty : text ≠ "")
      (plain : ∀ c ∈ text.toList, Text.isNameChar c = true) : Spelled (.name text) text.toList
  | quoted {quote : Char} {text : String} {written : List Char} (mark : quote = '"' ∨ quote = '\'')
      (inside : Escaped quote text.toList written) :
      Spelled (.quoted text) (quote :: (written ++ [quote]))

/-- Tokens written one after another, with white space and comments around them. -/
inductive Spaced : List Token → List Char → Prop where
  | nil {text : List Char} (closing : Closing text) : Spaced [] text
  | cons {token : Token} {tokens : List Token} {front spelling text : List Char}
      (blank : Blank front) (spelled : Spelled token spelling) (others : Spaced tokens text) :
      Spaced (token :: tokens) (front ++ (spelling ++ text))

/-! ## Reading characters -/

/-- The tokens of a rest of a text, on whatever line it begins. -/
def Yields (scanning : Scanning) (text : List Char) (tokens : List Token) : Prop :=
  ∀ line, (scan scanning line text).map Located.token = tokens

section

variable {scanning : Scanning} {c : Char} {rest : List Char} {tokens : List Token}

/-- One character, the token that it ends if it ends one, and the rest. -/
theorem Yields.cons (ended : List Token) (next : Nat → Scanning)
    (read : ∀ line, (scanChar line c rest.head? scanning).1.map Located.token = ended ∧
      (scanChar line c rest.head? scanning).2 = next line)
    (after : ∀ line, Yields (next line) rest tokens) :
    Yields scanning (c :: rest) (ended ++ tokens) := by
  intro line
  obtain ⟨first, moved⟩ := read line
  have step : scan scanning line (c :: rest) = (scanChar line c rest.head? scanning).1 ++
      scan (scanChar line c rest.head? scanning).2 (lineAfter line c) rest := rfl
  rw [step, List.map_append, first, moved, after line]

/-- A character that ends no token. -/
theorem Yields.pass (next : Nat → Scanning)
    (read : ∀ line, scanChar line c rest.head? scanning = ([], next line))
    (after : ∀ line, Yields (next line) rest tokens) : Yields scanning (c :: rest) tokens :=
  Yields.cons [] next (fun line => by simp [read line]) after

end

/-! ## White space and comments -/

theorem scanOutside_white {c : Char} (white : Unicode.isWhiteSpace c = true) (line : Nat)
    (ahead : Option Char) : scanOutside line c ahead = ([], .between) :=
  if_pos white

theorem yields_comment_of_single {body rest : List Char} {tokens : List Token}
    (single : '\n' ∉ body) (after : Yields .comment rest tokens) :
    Yields .comment (body ++ rest) tokens := by
  induction body with
  | nil => exact after
  | cons c body ih =>
      have other : c ≠ '\n' := Ne.symm (List.ne_of_not_mem_cons single)
      refine Yields.pass (fun _ => .comment) (fun line => ?_)
        fun _ => ih (List.not_mem_of_not_mem_cons single)
      rw [scanChar, if_neg other]

theorem CommentMark.yields {mark rest : List Char} {tokens : List Token}
    (marked : CommentMark mark) (after : Yields .comment rest tokens) :
    Yields .between (mark ++ rest) tokens := by
  cases marked with
  | number =>
      exact Yields.pass (fun _ => .comment) (fun line => rfl) fun _ => after
  | slashes =>
      have second : Yields .comment (['/'] ++ rest) tokens :=
        yields_comment_of_single (by decide) after
      exact Yields.pass (fun _ => .comment) (fun line => rfl) fun _ => second

theorem Blank.yields {front rest : List Char} {tokens : List Token} (blank : Blank front)
    (after : Yields .between rest tokens) : Yields .between (front ++ rest) tokens := by
  induction blank with
  | nil => exact after
  | space white others ih =>
      exact Yields.pass (fun _ => .between)
        (fun line => scanOutside_white white line _) fun _ => ih
  | @comment mark line others marked single blank ih =>
      have ended : Yields .comment ('\n' :: (others ++ rest)) tokens :=
        Yields.pass (fun _ => .between) (fun _ => rfl) fun _ => ih
      rw [List.append_assoc, List.append_assoc, List.cons_append]
      exact marked.yields (yields_comment_of_single single ended)

theorem Closing.yields {text : List Char} (closing : Closing text) : Yields .between text [] := by
  cases closing with
  | blank blank =>
      have whole := blank.yields (fun _ => rfl : Yields .between [] [])
      rwa [List.append_nil] at whole
  | comment blank marked single =>
      have ended := yields_comment_of_single single (fun _ => rfl : Yields .comment [] [])
      rw [List.append_nil] at ended
      exact blank.yields (marked.yields ended)

/-! ## Names without quotes -/

theorem scanOutside_name {c : Char} (plain : Text.isNameChar c = true) (line : Nat)
    (ahead : Option Char) : scanOutside line c ahead = ([], .name line [c]) := by
  have notWhite : ¬Unicode.isWhiteSpace c = true := by
    intro white
    rw [Text.isNameChar_of_isWhiteSpace white] at plain
    cases plain
  have notNumber : c ≠ '#' := by
    intro same
    rw [same] at plain
    exact absurd plain (by decide +kernel)
  have notSlash : ¬(c = '/' ∧ ahead = some '/') := by
    intro ⟨same, _⟩
    rw [same] at plain
    exact absurd plain (by decide +kernel)
  rw [scanOutside, if_neg notWhite, if_neg notNumber, if_neg notSlash, if_pos plain]

/-- A name ends before what can be no part of it. -/
theorem yields_name_end {start : Nat} {read rest : List Char} {tokens : List Token}
    (boundary : ∀ c, rest.head? = some c → Text.isNameChar c = false)
    (after : Yields .between rest tokens) :
    Yields (.name start read) rest (.name (String.ofList read.reverse) :: tokens) := by
  intro line
  cases rest with
  | nil =>
      have none : [] = tokens := after line
      rw [← none]
      rfl
  | cons c rest =>
      have other := boundary c rfl
      have outside : scan (.name start read) line (c :: rest) =
          ⟨.name (String.ofList read.reverse), start⟩ :: scan .between line (c :: rest) := by
        simp only [scan, scanChar, other, Bool.false_eq_true, ↓reduceIte, List.cons_append]
      rw [outside, List.map_cons, after line]

theorem yields_name (start : Nat) (read : List Char) {text rest : List Char} {tokens : List Token}
    (plain : ∀ c ∈ text, Text.isNameChar c = true)
    (boundary : ∀ c, rest.head? = some c → Text.isNameChar c = false)
    (after : Yields .between rest tokens) :
    Yields (.name start read) (text ++ rest)
      (.name (String.ofList (read.reverse ++ text)) :: tokens) := by
  induction text generalizing read with
  | nil =>
      rw [List.append_nil]
      exact yields_name_end boundary after
  | cons c text ih =>
      obtain ⟨first, others⟩ := List.forall_mem_cons.mp plain
      refine Yields.pass (fun _ => .name start (c :: read)) (fun line => ?_) fun _ => ?_
      · rw [scanChar, if_pos first]
      · have longer := ih (c :: read) others
        rwa [List.reverse_cons, List.append_assoc, List.singleton_append] at longer

/-! ## Names in quotes -/

theorem unescape_special {quote c : Char} (mark : quote = '"' ∨ quote = '\'')
    (special : c = quote ∨ c = '\\') : unescape c = c := by
  rcases special with rfl | rfl
  · rcases mark with rfl | rfl <;> rfl
  · rfl

/-- Of all that may be written between quotes, this is what is needed to write any text. -/
theorem Escaped.content {quote : Char} {text written : List Char}
    (escaped : Escaped quote text written) (mark : quote = '"' ∨ quote = '\'') :
    Content quote written text := by
  induction escaped with
  | nil => exact .nil
  | plain notQuote notBackslash others ih => exact .plain notQuote notBackslash ih
  | @backslash c text written special others ih =>
      have pair := Content.escape c ih
      rwa [unescape_special mark special] at pair
  | lineFeed others ih => exact .escape 'n' ih
  | tab others ih => exact .escape 't' ih

theorem Content.yields {quote : Char} {written text rest : List Char} {tokens : List Token}
    (content : Content quote written text) (mark : quote = '"' ∨ quote = '\'')
    (after : Yields .between rest tokens) (start : Nat) (read : List Char) :
    Yields (.quoted start quote read) (written ++ quote :: rest)
      (.quoted (String.ofList (read.reverse ++ text)) :: tokens) := by
  have notQuote : '\\' ≠ quote := by
    rcases mark with rfl | rfl <;> decide
  induction content generalizing read with
  | nil =>
      rw [List.append_nil]
      refine Yields.cons [.quoted (String.ofList read.reverse)] (fun _ => .between)
        (fun line => ?_) fun _ => after
      rw [scanChar, if_pos rfl]
      exact ⟨rfl, rfl⟩
  | @plain c written text notQuote notBackslash others ih =>
      refine Yields.pass (fun _ => .quoted start quote (c :: read)) (fun line => ?_)
        fun _ => ?_
      · rw [scanChar, if_neg notQuote, if_neg notBackslash]
      · have longer := ih (c :: read)
        rwa [List.reverse_cons, List.append_assoc, List.singleton_append] at longer
  | @escape c written text others ih =>
      refine Yields.pass (fun _ => .escaped start quote read) (fun line => ?_) fun _ => ?_
      · rw [scanChar, if_neg notQuote, if_pos rfl]
      · refine Yields.pass (fun _ => .quoted start quote (unescape c :: read))
          (fun line => rfl) fun _ => ?_
        have longer := ih (unescape c :: read)
        rwa [List.reverse_cons, List.append_assoc, List.singleton_append] at longer

/-! ## Tokens -/

/-- Names, which would run together side by side. -/
def Token.IsName : Token → Prop
  | .name _ => True
  | _ => False

/-- No name comes right after a name. -/
def NamesApart (tokens : List Token) : Prop :=
  ∀ before left right after, tokens = before ++ left :: right :: after → left.IsName →
    ¬right.IsName

theorem NamesApart.tail {token : Token} {tokens : List Token} (apart : NamesApart (token :: tokens)) :
    NamesApart tokens := by
  intro before left right after same
  exact apart (token :: before) left right after (by rw [same, List.cons_append])

theorem Blank.boundary {front : List Char} (blank : Blank front) :
    ∀ c, front.head? = some c → Text.isNameChar c = false := by
  intro c first
  cases blank with
  | nil => cases first
  | space white others =>
      cases first
      exact Text.isNameChar_of_isWhiteSpace white
  | comment marked single others =>
      cases marked <;> cases first <;> decide +kernel

theorem Closing.boundary {text : List Char} (closing : Closing text) :
    ∀ c, text.head? = some c → Text.isNameChar c = false := by
  intro c first
  cases closing with
  | blank blank => exact blank.boundary c first
  | @comment text mark line blank marked single =>
      cases text with
      | nil => cases marked <;> cases first <;> decide +kernel
      | cons other rest => exact blank.boundary c first

theorem Spelled.boundary {token : Token} {spelling : List Char} (spelled : Spelled token spelling)
    (other : ¬token.IsName) (rest : List Char) :
    ∀ c, (spelling ++ rest).head? = some c → Text.isNameChar c = false := by
  intro c first
  cases spelled with
  | name nonempty plain => exact absurd trivial other
  | quoted mark inside =>
      cases first
      rcases mark with rfl | rfl <;> decide +kernel
  | leftBrace | rightBrace | leftBracket | rightBracket | colon | comma =>
      cases first
      decide +kernel

/-- What is written of tokens that do not begin with a name begins with no name character. -/
theorem Spaced.boundary {tokens : List Token} {text : List Char} (spaced : Spaced tokens text)
    (other : ∀ token, tokens.head? = some token → ¬token.IsName) :
    ∀ c, text.head? = some c → Text.isNameChar c = false := by
  intro c first
  cases spaced with
  | nil closing => exact closing.boundary c first
  | @cons token tokens front spelling text blank spelled others =>
      cases front with
      | nil => exact spelled.boundary (other token rfl) text c first
      | cons head rest => exact blank.boundary c first

theorem Spelled.yields {token : Token} {tokens : List Token} {spelling rest : List Char}
    (spelled : Spelled token spelling)
    (boundary : token.IsName → ∀ c, rest.head? = some c → Text.isNameChar c = false)
    (after : Yields .between rest tokens) :
    Yields .between (spelling ++ rest) (token :: tokens) := by
  cases spelled with
  | leftBrace | rightBrace | leftBracket | rightBracket | colon | comma =>
      exact Yields.cons [_] (fun _ => .between) (fun _ => ⟨rfl, rfl⟩) fun _ => after
  | @name text nonempty plain =>
      cases chars : text.toList with
      | nil => exact absurd (String.toList_eq_nil_iff.mp chars) nonempty
      | cons c others =>
          rw [chars] at plain
          obtain ⟨first, remaining⟩ := List.forall_mem_cons.mp plain
          refine Yields.pass (fun line => .name line [c])
            (fun line => scanOutside_name first line _) fun line => ?_
          have read := yields_name line [c] remaining (boundary trivial) after
          rwa [List.reverse_singleton, List.singleton_append, ← chars, String.ofList_toList] at read
  | @quoted quote text written mark inside =>
      rw [List.cons_append, List.append_assoc, List.singleton_append]
      refine Yields.pass (fun line => .quoted line quote []) (fun line => ?_) fun line => ?_
      · rcases mark with rfl | rfl <;> rfl
      · have read := (inside.content mark).yields mark after line []
        rwa [List.reverse_nil, List.nil_append, String.ofList_toList] at read

/-- What is written of tokens is read as these tokens, if no two names stand side by side. -/
theorem Spaced.yields {tokens : List Token} {text : List Char} (spaced : Spaced tokens text)
    (apart : NamesApart tokens) : Yields .between text tokens := by
  induction spaced with
  | nil closing => exact closing.yields
  | @cons token tokens front spelling text blank spelled others ih =>
      refine blank.yields (spelled.yields (fun named => ?_) (ih apart.tail))
      refine others.boundary fun next first => ?_
      cases tokens with
      | nil => cases first
      | cons other tokens =>
          cases first
          exact apart [] token next tokens rfl named

theorem tokens_of_spaced {tokens : List Token} {text : String}
    (spaced : Spaced tokens text.toList) (apart : NamesApart tokens) :
    (Notation.tokens text).map Located.token = tokens :=
  spaced.yields apart 1

end SchemaWire.Notation
