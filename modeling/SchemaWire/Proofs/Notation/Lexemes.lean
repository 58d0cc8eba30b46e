import SchemaWire.Proofs.Notation.Spelling

/-!
# Characters of tokens

Where in a text its tokens stand, apart from any way of reading it: a text is white space, comments
and the characters of one token after another. Every text is of this form, also one with characters
that are no token and with quotes that are not closed. What is read of a token is its line, which is
the number of the line feeds before its first character.
-/

set_option autoImplicit false

namespace SchemaWire.Notation

/-! ## Tokens in a text -/

/-- A character that starts no token, given the character behind it. -/
structure StartsNothing (c : Char) (ahead : Option Char) : Prop where
  notWhite : Unicode.isWhiteSpace c = false
  notName : Text.isNameChar c = false
  notNumber : c ≠ '#'
  notSlashes : ¬(c = '/' ∧ ahead = some '/')
  notMark : c ∉ ['"', '\'', '\x7b', '\x7d', '[', ']', ':', ',']

/-- The characters of a token, given the characters behind it. A name is as long as it can be, and
quotes that are not closed go on to the end. -/
inductive Lexeme : Token → List Char → List Char → Prop where
  | leftBrace {rest : List Char} : Lexeme .leftBrace ['\x7b'] rest
  | rightBrace {rest : List Char} : Lexeme .rightBrace ['\x7d'] rest
  | leftBracket {rest : List Char} : Lexeme .leftBracket ['['] rest
  | rightBracket {rest : List Char} : Lexeme .rightBracket [']'] rest
  | colon {rest : List Char} : Lexeme .colon [':'] rest
  | comma {rest : List Char} : Lexeme .comma [','] rest
  | name {text rest : List Char} (nonempty : text ≠ [])
      (plain : ∀ c ∈ text, Text.isNameChar c = true)
      (boundary : ∀ c, rest.head? = some c → Text.isNameChar c = false) :
      Lexeme (.name (String.ofList text)) text rest
  | quoted {quote : Char} {written text rest : List Char} (mark : quote = '"' ∨ quote = '\'')
      (inside : Content quote written text) :
      Lexeme (.quoted (String.ofList text)) (quote :: (written ++ [quote])) rest
  | unterminated {quote : Char} {written text last : List Char}
      (mark : quote = '"' ∨ quote = '\'') (inside : Content quote written text)
      (unescaped : last = [] ∨ last = ['\\']) :
      Lexeme .unterminated (quote :: (written ++ last)) []
  | unexpected {c : Char} {rest : List Char} (none : StartsNothing c rest.head?) :
      Lexeme (.unexpected c) [c] rest

/-- Tokens one after another with blanks around them, given the characters behind. -/
inductive Lexes : List Token → List Char → List Char → Prop where
  | blank {front rest : List Char} (blank : Blank front) : Lexes [] front rest
  | cons {token : Token} {tokens : List Token} {front spelling others rest : List Char}
      (blank : Blank front) (first : Lexeme token spelling (others ++ rest))
      (remaining : Lexes tokens others rest) :
      Lexes (token :: tokens) (front ++ (spelling ++ others)) rest

/-- The characters of a text before the token that comes after the given ones, or before the end of
the text. -/
inductive Precedes (text : List Char) (before : List Token) : Option Token → List Char → Prop where
  | token {token : Token} {front spelling rest : List Char}
      (whole : text = front ++ (spelling ++ rest)) (earlier : Lexes before front (spelling ++ rest))
      (here : Lexeme token spelling rest) : Precedes text before (some token) front
  | ending {front last : List Char} (whole : text = front ++ last)
      (earlier : Lexes before front last) (closing : Closing last) : Precedes text before none text

/-! ## Lines -/

theorem lineAfter_add (line : Nat) (c : Char) (text : List Char) :
    lineAfter line c + text.count '\n' = line + (c :: text).count '\n' := by
  rw [lineAfter]
  by_cases feed : c = '\n'
  · subst feed
    rw [if_pos rfl, List.count_cons_self]
    omega
  · rw [if_neg feed, List.count_cons_of_ne feed]

theorem lineAfter_of_ne {line : Nat} {c : Char} (other : c ≠ '\n') : lineAfter line c = line :=
  if_neg other

theorem foldl_lineAfter (text : List Char) (line : Nat) :
    text.foldl lineAfter line = line + text.count '\n' := by
  induction text generalizing line with
  | nil => rfl
  | cons c rest ih =>
      rw [List.foldl_cons, ih, lineAfter_add]

theorem lastLine_eq (text : String) : lastLine text = 1 + text.toList.count '\n' :=
  foldl_lineAfter text.toList 1

theorem isNameChar_lineFeed : Text.isNameChar '\n' = false := by
  decide +kernel

/-! ## The next token -/

/-- What comes next in a text: its end, behind white space and comments, or a token, whose line is
that of its first character. -/
inductive Next (line : Nat) (text : List Char) : Prop where
  | none (closing : Closing text) (read : scan .between line text = [])
  | token {token : Token} {front spelling rest : List Char}
      (whole : text = front ++ (spelling ++ rest)) (blank : Blank front)
      (lexeme : Lexeme token spelling rest)
      (read : scan .between line text = ⟨token, line + front.count '\n'⟩ ::
        scan .between (line + front.count '\n' + spelling.count '\n') rest)

/-- A comment goes on to the next line feed or to the end. -/
theorem scan_comment (line : Nat) (text : List Char) :
    ('\n' ∉ text ∧ scan .comment line text = []) ∨
      ∃ body rest, text = body ++ '\n' :: rest ∧ '\n' ∉ body ∧
        scan .comment line text = scan .between (line + 1) rest := by
  induction text with
  | nil => exact .inl ⟨List.not_mem_nil, rfl⟩
  | cons c text ih =>
      by_cases feed : c = '\n'
      · subst feed
        exact .inr ⟨[], text, rfl, List.not_mem_nil, rfl⟩
      · have step : scan .comment line (c :: text) = scan .comment line text := by
          simp only [scan, scanChar, if_neg feed, lineAfter_of_ne feed, List.nil_append]
        rcases ih with ⟨single, read⟩ | ⟨body, rest, rfl, single, read⟩
        · exact .inl ⟨List.not_mem_cons_of_ne_of_not_mem (Ne.symm feed) single, step.trans read⟩
        · exact .inr ⟨c :: body, rest, rfl,
            List.not_mem_cons_of_ne_of_not_mem (Ne.symm feed) single, step.trans read⟩

/-- A name goes on as long as there are characters of names. -/
theorem scan_name (start line : Nat) (read text : List Char) :
    ∃ body rest, text = body ++ rest ∧ (∀ c ∈ body, Text.isNameChar c = true) ∧
      (∀ c, rest.head? = some c → Text.isNameChar c = false) ∧
      scan (.name start read) line text =
        ⟨.name (String.ofList (read.reverse ++ body)), start⟩ :: scan .between line rest := by
  induction text generalizing read with
  | nil =>
      refine ⟨[], [], rfl, List.forall_mem_nil _, nofun, ?_⟩
      rw [List.append_nil]
      rfl
  | cons c text ih =>
      by_cases plain : Text.isNameChar c = true
      · obtain ⟨body, rest, rfl, others, boundary, remaining⟩ := ih (c :: read)
        have inLine : c ≠ '\n' := by
          rintro rfl
          exact absurd plain (by rw [isNameChar_lineFeed]; exact Bool.false_ne_true)
        refine ⟨c :: body, rest, rfl, List.forall_mem_cons.mpr ⟨plain, others⟩, boundary, ?_⟩
        rw [List.reverse_cons, List.append_assoc, List.singleton_append] at remaining
        simp only [scan, scanChar, if_pos plain, lineAfter_of_ne inLine, List.nil_append, remaining]
      · have ended : Text.isNameChar c = false := Bool.eq_false_iff.mpr plain
        refine ⟨[], c :: text, rfl, List.forall_mem_nil _, ?_, ?_⟩
        · rintro _ ⟨⟩
          exact ended
        · simp only [scan, scanChar, ended, Bool.false_eq_true, if_false, List.append_nil,
            List.cons_append]

/-- What is read inside quotes: a text up to the quote that closes them, or no text if the end comes
first. -/
inductive Inside (quote : Char) (start line : Nat) (read text : List Char) : Prop where
  | closed {written inner rest : List Char} (whole : text = written ++ quote :: rest)
      (content : Content quote written inner)
      (found : scan (.quoted start quote read) line text =
        ⟨.quoted (String.ofList (read.reverse ++ inner)), start⟩ ::
          scan .between (line + written.count '\n') rest)
  | unclosed {written inner last : List Char} (whole : text = written ++ last)
      (content : Content quote written inner) (unescaped : last = [] ∨ last = ['\\'])
      (found : scan (.quoted start quote read) line text = [⟨.unterminated, start⟩])

section

variable {quote c : Char} {start line : Nat} {read text : List Char}

theorem Inside.plain (notQuote : c ≠ quote) (notBackslash : c ≠ '\\')
    (others : Inside quote start (lineAfter line c) (c :: read) text) :
    Inside quote start line read (c :: text) := by
  have step : scan (.quoted start quote read) line (c :: text) =
      scan (.quoted start quote (c :: read)) (lineAfter line c) text := by
    simp only [scan, scanChar, if_neg notQuote, if_neg notBackslash, List.nil_append]
  cases others with
  | closed whole content found =>
      subst whole
      refine .closed rfl (.plain notQuote notBackslash content) ?_
      rw [step, found, lineAfter_add, List.reverse_cons, List.append_assoc, List.singleton_append]
  | unclosed whole content unescaped found =>
      subst whole
      exact .unclosed rfl (.plain notQuote notBackslash content) unescaped (step.trans found)

theorem Inside.escape (notQuote : '\\' ≠ quote)
    (others : Inside quote start (lineAfter line c) (unescape c :: read) text) :
    Inside quote start line read ('\\' :: c :: text) := by
  have step : scan (.quoted start quote read) line ('\\' :: c :: text) =
      scan (.quoted start quote (unescape c :: read)) (lineAfter line c) text := by
    simp only [scan, scanChar, if_neg notQuote, if_true, List.nil_append,
      lineAfter_of_ne (show '\\' ≠ '\n' by decide)]
  cases others with
  | closed whole content found =>
      subst whole
      refine .closed rfl (.escape c content) ?_
      rw [step, found, List.reverse_cons, List.append_assoc, List.singleton_append,
        List.count_cons_of_ne (show '\\' ≠ '\n' by decide), lineAfter_add]
  | unclosed whole content unescaped found =>
      subst whole
      exact .unclosed rfl (.escape c content) unescaped (step.trans found)

/-- A backslash and the character after it are read together. -/
theorem inside_quotes (mark : quote = '"' ∨ quote = '\'') (start : Nat) :
    ∀ (text : List Char) (line : Nat) (read : List Char), Inside quote start line read text
  | [], _, _ => .unclosed rfl .nil (.inl rfl) rfl
  | c :: text, line, read => by
      have notBackslash : '\\' ≠ quote := by
        rcases mark with rfl | rfl <;> decide
      by_cases closes : c = quote
      · subst closes
        have inLine : c ≠ '\n' := by
          rcases mark with rfl | rfl <;> decide
        refine .closed rfl .nil ?_
        simp only [scan, scanChar, if_true, lineAfter_of_ne inLine, List.append_nil,
          List.count_nil, Nat.add_zero, List.cons_append, List.nil_append]
      · by_cases backslash : c = '\\'
        · subst backslash
          cases text with
          | nil =>
              refine .unclosed rfl .nil (.inr rfl) ?_
              simp only [scan, scanChar, if_neg closes, if_true, scanEnd, List.nil_append]
          | cons next text =>
              exact .escape notBackslash
                (inside_quotes mark start text (lineAfter line next) (unescape next :: read))
        · exact .plain closes backslash
            (inside_quotes mark start text (lineAfter line c) (c :: read))

end

/-! ## Tokens outside quotes -/

theorem scanOutside_other {c : Char} {ahead : Option Char} (none : StartsNothing c ahead)
    (line : Nat) : scanOutside line c ahead = ([⟨.unexpected c, line⟩], .between) := by
  obtain ⟨notWhite, notName, notNumber, notSlashes, notMark⟩ := none
  simp only [List.mem_cons, List.not_mem_nil, or_false, not_or] at notMark
  obtain ⟨double, single, leftBrace, rightBrace, leftBracket, rightBracket, colon, comma⟩ := notMark
  simp only [scanOutside, Token.ofChar, notWhite, notName, notNumber, notSlashes, double, single,
    leftBrace, rightBrace, leftBracket, rightBracket, colon, comma, Bool.false_eq_true, or_self,
    if_false]

/-- A white space character or a comment before what comes next. -/
theorem Next.after {line : Nat} {gap text : List Char}
    (blank : ∀ {front : List Char}, Blank front → Blank (gap ++ front))
    (read : scan .between line (gap ++ text) = scan .between (line + gap.count '\n') text)
    (next : Next (line + gap.count '\n') text) : Next line (gap ++ text) := by
  cases next with
  | none closing found =>
      refine .none ?_ (read.trans found)
      cases closing with
      | blank front => exact .blank (blank front)
      | @comment front mark body gapped marked single =>
          rw [← List.append_assoc]
          exact .comment (blank gapped) marked single
  | @token token front spelling rest whole gapped lexeme found =>
      subst whole
      have split : gap ++ (front ++ (spelling ++ rest)) = gap ++ front ++ (spelling ++ rest) := by
        rw [List.append_assoc]
      refine .token split (blank gapped) lexeme ?_
      rw [read, found, List.count_append, Nat.add_assoc line]

theorem Next.comment {line : Nat} {mark text : List Char} (marked : CommentMark mark)
    (read : scan .between line (mark ++ text) = scan .comment line text)
    (next : ∀ rest, rest.length < text.length → Next (line + 1) rest) : Next line (mark ++ text) := by
  rcases scan_comment line text with ⟨single, found⟩ | ⟨body, rest, rfl, single, found⟩
  · exact .none (.comment .nil marked single) (read.trans found)
  · have feeds : (mark ++ (body ++ ['\n'])).count '\n' = 1 := by
      have none : '\n' ∉ mark := by cases marked <;> decide
      rw [List.count_append, List.count_append, List.count_eq_zero_of_not_mem none,
        List.count_eq_zero_of_not_mem single]
      rfl
    have whole : mark ++ (body ++ '\n' :: rest) = mark ++ (body ++ ['\n']) ++ rest := by
      simp only [List.append_assoc, List.singleton_append]
    rw [whole] at read ⊢
    refine .after (fun {front} blank => ?_) ?_ ?_
    · rw [List.append_assoc, List.append_assoc, List.singleton_append]
      exact .comment marked single blank
    · rw [read, found, feeds]
    · rw [feeds]
      refine next rest ?_
      rw [List.length_append, List.length_cons]
      omega

/-- A token at the beginning of a text. -/
theorem Next.here {line : Nat} {token : Token} {spelling rest : List Char}
    (lexeme : Lexeme token spelling rest)
    (read : scan .between line (spelling ++ rest) =
      ⟨token, line⟩ :: scan .between (line + spelling.count '\n') rest) :
    Next line (spelling ++ rest) :=
  .token rfl .nil lexeme read

theorem next_of_name {line : Nat} {c : Char} {text : List Char}
    (plain : Text.isNameChar c = true) : Next line (c :: text) := by
  obtain ⟨body, rest, rfl, others, boundary, found⟩ := scan_name line line [c] text
  have each : ∀ other ∈ c :: body, Text.isNameChar other = true :=
    List.forall_mem_cons.mpr ⟨plain, others⟩
  refine Next.here (.name (List.cons_ne_nil c body) each boundary) ?_
  have inLine : '\n' ∉ c :: body := by
    intro member
    have feed := each _ member
    rw [isNameChar_lineFeed] at feed
    cases feed
  have first : c ≠ '\n' := Ne.symm (List.ne_of_not_mem_cons inLine)
  rw [List.count_eq_zero_of_not_mem inLine, List.cons_append, scan, scanChar,
    scanOutside_name plain, lineAfter_of_ne first]
  exact found

theorem next_of_quote {line : Nat} {quote : Char} {text : List Char}
    (mark : quote = '"' ∨ quote = '\'') : Next line (quote :: text) := by
  have inLine : quote ≠ '\n' := by
    rcases mark with rfl | rfl <;> decide
  have step : scan .between line (quote :: text) = scan (.quoted line quote []) line text := by
    rcases mark with rfl | rfl <;> rfl
  cases inside_quotes mark line text line [] with
  | @closed written inner rest whole content found =>
      subst whole
      have split : quote :: (written ++ quote :: rest) = quote :: (written ++ [quote]) ++ rest := by
        rw [List.cons_append, List.append_assoc, List.singleton_append]
      have feeds : (quote :: (written ++ [quote])).count '\n' = written.count '\n' := by
        rw [List.count_cons_of_ne inLine, List.count_append, List.count_singleton,
          if_neg fun same => inLine (beq_iff_eq.mp same), Nat.add_zero]
      rw [split]
      refine .here (.quoted mark content) ?_
      rw [← split, step, found, feeds]
      rfl
  | @unclosed written inner last whole content unescaped found =>
      subst whole
      have split : quote :: (written ++ last) = quote :: (written ++ last) ++ [] :=
        (List.append_nil _).symm
      rw [split]
      refine .here (.unterminated mark content unescaped) ?_
      rw [← split, step, found]
      rfl

/-- A token of a single character. -/
theorem next_of_mark {line : Nat} {token : Token} {c : Char} {text : List Char}
    (lexeme : Lexeme token [c] text) (inLine : c ≠ '\n')
    (read : scanOutside line c text.head? = ([⟨token, line⟩], .between)) :
    Next line (c :: text) := by
  refine .here lexeme ?_
  rw [List.count_singleton, if_neg fun same => inLine (beq_iff_eq.mp same), List.singleton_append,
    scan, scanChar, read, lineAfter_of_ne inLine]
  rfl

theorem next_of_other {line : Nat} {c : Char} {text : List Char}
    (notWhite : Unicode.isWhiteSpace c = false) (notName : Text.isNameChar c = false)
    (notNumber : c ≠ '#') (notSlashes : ¬(c = '/' ∧ text.head? = some '/'))
    (notQuote : ¬(c = '"' ∨ c = '\'')) : Next line (c :: text) := by
  have inLine : c ≠ '\n' := by
    rintro rfl
    exact absurd notWhite (by decide)
  by_cases leftBrace : c = '\x7b'
  · subst leftBrace
    exact next_of_mark .leftBrace inLine rfl
  by_cases rightBrace : c = '\x7d'
  · subst rightBrace
    exact next_of_mark .rightBrace inLine rfl
  by_cases leftBracket : c = '['
  · subst leftBracket
    exact next_of_mark .leftBracket inLine rfl
  by_cases rightBracket : c = ']'
  · subst rightBracket
    exact next_of_mark .rightBracket inLine rfl
  by_cases colon : c = ':'
  · subst colon
    exact next_of_mark .colon inLine rfl
  by_cases comma : c = ','
  · subst comma
    exact next_of_mark .comma inLine rfl
  have none : StartsNothing c text.head? :=
    ⟨notWhite, notName, notNumber, notSlashes, by simp_all⟩
  exact next_of_mark (.unexpected none) inLine (scanOutside_other none line)

theorem next_of_text (text : List Char) (line : Nat) : Next line text := by
  induction length : text.length using Nat.strongRecOn generalizing line text with
  | ind length ih =>
      subst length
      cases text with
      | nil => exact .none (.blank .nil) rfl
      | cons c text =>
          by_cases white : Unicode.isWhiteSpace c = true
          · rw [← List.singleton_append]
            refine .after (fun blank => .space white blank) ?_ ?_
            · rw [List.singleton_append, scan, scanChar, scanOutside_white white,
                ← Nat.add_zero (lineAfter line c), ← List.count_nil (a := '\n'), lineAfter_add]
              rfl
            · exact ih _ (Nat.lt_succ_self _) text _ rfl
          by_cases number : c = '#'
          · subst number
            exact .comment .number rfl fun rest shorter => ih _ (Nat.lt_succ_of_lt shorter) rest _ rfl
          by_cases slashes : c = '/' ∧ text.head? = some '/'
          · obtain ⟨rfl, ahead⟩ := slashes
            obtain ⟨rest, rfl⟩ := List.head?_eq_some_iff.mp ahead
            refine Next.comment .slashes rfl fun others shorter => ih _ ?_ others _ rfl
            simp only [List.length_cons]
            omega
          by_cases plain : Text.isNameChar c = true
          · exact next_of_name plain
          by_cases quote : c = '"' ∨ c = '\''
          · exact next_of_quote quote
          exact next_of_other (Bool.eq_false_iff.mpr white) (Bool.eq_false_iff.mpr plain) number
            slashes quote

/-! ## All tokens -/

theorem Precedes.after {first : Token} {gap spelling rest : List Char} (blank : Blank gap)
    (lexeme : Lexeme first spelling rest) {before : List Token} {token : Option Token}
    {front : List Char} (precedes : Precedes rest before token front) :
    Precedes (gap ++ (spelling ++ rest)) (first :: before) token (gap ++ (spelling ++ front)) := by
  cases precedes with
  | token whole earlier here =>
      subst whole
      exact .token (by simp only [List.append_assoc]) (.cons blank lexeme earlier) here
  | @ending inner last whole earlier closing =>
      subst whole
      have split : gap ++ (spelling ++ (inner ++ last)) = gap ++ (spelling ++ inner) ++ last := by
        simp only [List.append_assoc]
      exact .ending split (.cons blank lexeme earlier) closing

/-- Every token that is read stands in the text behind the earlier ones, on its line. -/
theorem exists_precedes_of_scan {text : List Char} {line : Nat} {before after : List Located}
    {located : Located} (read : scan .between line text = before ++ located :: after) :
    ∃ front, Precedes text (before.map Located.token) (some located.token) front ∧
      located.line = line + front.count '\n' := by
  induction before generalizing text line with
  | nil =>
      cases next_of_text text line with
      | none closing found => cases found.symm.trans read
      | token whole blank lexeme found =>
          cases found.symm.trans read
          exact ⟨_, .token whole (.blank blank) lexeme, rfl⟩
  | cons first before ih =>
      cases next_of_text text line with
      | none closing found => cases found.symm.trans read
      | @token token gap spelling rest whole blank lexeme found =>
          obtain ⟨rfl, remaining⟩ := List.cons.inj (found.symm.trans read)
          obtain ⟨front, precedes, same⟩ := ih remaining
          subst whole
          refine ⟨_, precedes.after blank lexeme, ?_⟩
          rw [same, List.count_append, List.count_append]
          omega

/-- The tokens that are read are all of the text. -/
theorem precedes_end_of_scan {text : List Char} {line : Nat} {tokens : List Located}
    (read : scan .between line text = tokens) :
    Precedes text (tokens.map Located.token) none text := by
  induction tokens generalizing text line with
  | nil =>
      cases next_of_text text line with
      | none closing found => exact .ending (List.nil_append text).symm (.blank .nil) closing
      | token whole blank lexeme found => cases found.symm.trans read
  | cons first tokens ih =>
      cases next_of_text text line with
      | none closing found => cases found.symm.trans read
      | token whole blank lexeme found =>
          obtain ⟨rfl, remaining⟩ := List.cons.inj (found.symm.trans read)
          subst whole
          exact (ih remaining).after blank lexeme

end SchemaWire.Notation
