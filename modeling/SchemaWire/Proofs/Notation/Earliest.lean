import SchemaWire.Proofs.Notation.Lexemes
import SchemaWire.Proofs.Notation.Writing

/-!
# Errors at the earliest token

The machine that reads tokens never goes on in vain: whatever it has read begins some definition,
since every open container can be closed. So the token that it refuses is the first at which the
text is no definition any more, and the error names this token and its line.
-/

set_option autoImplicit false

namespace SchemaWire.Notation

open Schema (Definition)
open Grammar (Names Node)

/-! ## Beginnings of definitions -/

/-- The tokens of a text and its end, which stands behind them. -/
def endedTokens (text : String) : List (Option Token) :=
  (tokens text).map (fun located => some located.token) ++ [none]

/-- Some text of a definition has these tokens, or these tokens and its end, first. -/
def Viable (front : List (Option Token)) : Prop :=
  ∃ text definition, read text = .ok definition ∧ front <+: endedTokens text

theorem endedTokens_eq (text : String) :
    endedTokens text = ((tokens text).map Located.token).map some ++ [none] := by
  rw [endedTokens, List.map_map]
  rfl

/-- What stands before the end are the tokens. -/
theorem eq_of_ended_prefix {tokens others : List Token}
    (begins : tokens.map some ++ [none] <+: others.map some ++ [none]) : tokens = others := by
  induction tokens generalizing others with
  | nil =>
      cases others with
      | nil => rfl
      | cons other others =>
          obtain ⟨same, -⟩ := List.cons_prefix_cons.mp begins
          cases same
  | cons token tokens ih =>
      cases others with
      | nil =>
          obtain ⟨same, -⟩ := List.cons_prefix_cons.mp begins
          cases same
      | cons other others =>
          obtain ⟨same, remaining⟩ := List.cons_prefix_cons.mp begins
          cases same
          rw [ih remaining]

theorem prefix_of_map_some {tokens others : List Token}
    (begins : tokens.map some <+: others.map some ++ [none]) : tokens <+: others := by
  induction tokens generalizing others with
  | nil => exact List.nil_prefix
  | cons token tokens ih =>
      cases others with
      | nil =>
          obtain ⟨same, -⟩ := List.cons_prefix_cons.mp begins
          cases same
      | cons other others =>
          obtain ⟨same, remaining⟩ := List.cons_prefix_cons.mp begins
          cases same
          exact List.cons_prefix_cons.mpr ⟨rfl, ih remaining⟩

namespace Reading

variable {reading next : Reading} {read : List Token} {definition : Definition}

/-! ## Completions -/

/-- Tokens that can be written lead from here to a whole definition. -/
def Completable (reading : Reading) : Prop :=
  ∃ tokens definition, reading.after? tokens = some (complete definition) ∧ Spellable tokens

theorem Completable.of_moves {token : Token} {spelling : List Char}
    (moves : Moves reading token next) (spelled : Spelled token spelling)
    (completable : next.Completable) : reading.Completable := by
  obtain ⟨tokens, definition, complete, spellable⟩ := completable
  exact ⟨token :: tokens, definition, (after?_cons_of_moves moves tokens).trans complete,
    spellable.cons spelled⟩

/-- Behind a node every open container can be closed. -/
theorem completable_finish (definition : Definition) (outer : List Opened) :
    (finish definition outer).Completable := by
  induction outer generalizing definition with
  | nil => exact ⟨[], definition, rfl, spellable_nil⟩
  | cons opened outer ih =>
      cases opened with
      | mapping fields name => exact .of_moves (.lastField _ outer) .rightBrace (ih _)
      | sequence items => exact .of_moves (.lastItem _ outer) .rightBracket (ih _)

theorem Awaits.completable {outer : List Opened} (awaits : reading.Awaits outer) :
    reading.Completable :=
  .of_moves (.openMapping awaits) .leftBrace
    (.of_moves (.noField [] outer) .rightBrace (completable_finish _ outer))

/-- Wherever the machine stands, it can go on to the end of a definition. -/
theorem completable (reading : Reading) : reading.Completable := by
  cases reading with
  | node outer => exact (Awaits.node outer).completable
  | item items outer => exact (Awaits.item items outer).completable
  | field fields outer =>
      exact .of_moves (.noField fields outer) .rightBrace (completable_finish _ outer)
  | colon fields name outer =>
      exact .of_moves (.value fields name outer) .colon (Awaits.node _).completable
  | afterField fields outer =>
      exact .of_moves (.lastField fields outer) .rightBrace (completable_finish _ outer)
  | afterItem items outer =>
      exact .of_moves (.lastItem items outer) .rightBracket (completable_finish _ outer)
  | complete definition => exact ⟨[], definition, rfl, spellable_nil⟩

/-! ## Errors -/

/-- The machine fails at a token that it cannot read or at the end of the text, where it stands
after all tokens before. -/
theorem exists_of_run_error {last : Nat} {located : List Located} {e : SyntaxError}
    (failed : reading.run last located = .error e) :
    (∃ before refused after between, located = before ++ refused :: after ∧
        reading.after? (before.map Located.token) = some between ∧
        between.step? refused.token = none ∧ e = ⟨refused.line, between.expected, refused.token⟩) ∨
      ∃ between, reading.after? (located.map Located.token) = some between ∧
        (∀ definition, between ≠ complete definition) ∧ e = ⟨last, between.expected, none⟩ := by
  induction located generalizing reading with
  | nil =>
      right
      cases reading with
      | complete definition => cases failed
      | node | item | field | colon | afterField | afterItem =>
          cases failed
          exact ⟨_, rfl, nofun, rfl⟩
  | cons first rest ih =>
      cases step : reading.step? first.token with
      | none =>
          left
          refine ⟨[], first, rest, reading, rfl, rfl, step, ?_⟩
          cases reading <;> simp only [run, step] at failed <;> exact (Except.error.inj failed).symm
      | some next =>
          have moved : reading.run last (first :: rest) = next.run last rest := by
            cases reading <;> simp only [run, step]
          rw [moved] at failed
          have whole : ∀ others : List Token,
              reading.after? (first.token :: others) = next.after? others := fun others =>
            after?_cons_of_moves (moves_of_step? step) others
          rcases ih failed with ⟨before, refused, after, between, rfl, read, refuses, same⟩ |
              ⟨between, read, unfinished, same⟩
          · exact .inl ⟨first :: before, refused, after, between, rfl, (whole _).trans read, refuses,
              same⟩
          · exact .inr ⟨between, (whole _).trans read, unfinished, same⟩

end Reading

/-! ## Texts of beginnings -/

theorem Lexeme.exists_spelled {token : Token} {spelling rest : List Char}
    (lexeme : Lexeme token spelling rest)
    (known : token ≠ .unterminated ∧ ∀ c, token ≠ .unexpected c) :
    ∃ written, Spelled token written := by
  cases lexeme with
  | leftBrace => exact ⟨_, .leftBrace⟩
  | rightBrace => exact ⟨_, .rightBrace⟩
  | leftBracket => exact ⟨_, .leftBracket⟩
  | rightBracket => exact ⟨_, .rightBracket⟩
  | colon => exact ⟨_, .colon⟩
  | comma => exact ⟨_, .comma⟩
  | name nonempty plain boundary =>
      refine ⟨_, .name (fun empty => nonempty (String.ofList_eq_empty_iff.mp empty)) ?_⟩
      rwa [String.toList_ofList]
  | quoted mark inside => exact exists_spelled_quoted _
  | unterminated => exact absurd rfl known.1
  | unexpected none => exact absurd rfl (known.2 _)

theorem Lexes.spellable {tokens : List Token} {front rest : List Char}
    (lexes : Lexes tokens front rest)
    (known : ∀ token ∈ tokens, token ≠ .unterminated ∧ ∀ c, token ≠ .unexpected c) :
    Spellable tokens := by
  induction lexes with
  | blank blank => exact spellable_nil
  | cons blank first remaining ih =>
      obtain ⟨firstKnown, othersKnown⟩ := List.forall_mem_cons.mp known
      obtain ⟨spelling, spelled⟩ := first.exists_spelled firstKnown
      exact (ih othersKnown).cons spelled

/-- What the machine has read of a text begins some text of a definition. -/
theorem viable_of_after? {read : List Token} {front rest : List Char} {reading : Reading}
    (lexes : Lexes read front rest) (reached : (Reading.node []).after? read = some reading) :
    Viable (read.map some) := by
  obtain ⟨others, definition, completed, othersSpellable⟩ := reading.completable
  have complete : (Reading.node []).after? (read ++ others) = some (.complete definition) := by
    rw [Reading.after?_append_of_after? reached, completed]
  have punctuated := Reading.punctuated_of_after? complete
  have spellable := (lexes.spellable fun token member =>
    punctuated.known token (List.mem_append_left others member)).append othersSpellable
  obtain ⟨text, spaced⟩ := spellable.exists_spaced
  have spelled : Spaced (read ++ others) (String.ofList text).toList := by
    rwa [String.toList_ofList]
  have same := tokens_of_spaced spelled punctuated.namesApart
  refine ⟨String.ofList text, definition, ?_, ?_⟩
  · rw [Notation.read, Reading.run_eq_ok_iff, same, complete]
  · rw [endedTokens_eq, same, List.map_append, List.append_assoc]
    exact List.prefix_append _ _

/-- No text of a definition goes on with a token that the machine refuses. -/
theorem not_viable_of_step? {read : List Token} {token : Token} {reading : Reading}
    (reached : (Reading.node []).after? read = some reading)
    (refused : reading.step? token = none) : ¬Viable (read.map some ++ [some token]) := by
  rintro ⟨text, definition, success, begins⟩
  rw [endedTokens_eq, ← List.map_singleton, ← List.map_append] at begins
  obtain ⟨rest, whole⟩ := prefix_of_map_some begins
  rw [Notation.read, Reading.run_eq_ok_iff, ← whole, List.append_assoc,
    Reading.after?_append_of_after? reached, List.singleton_append, Reading.after?_cons,
    refused] at success
  cases success

/-- No text of a definition ends where the machine stands inside one. -/
theorem not_viable_of_unfinished {read : List Token} {reading : Reading}
    (reached : (Reading.node []).after? read = some reading)
    (unfinished : ∀ definition, reading ≠ .complete definition) :
    ¬Viable (read.map some ++ [none]) := by
  rintro ⟨text, definition, success, begins⟩
  rw [endedTokens_eq] at begins
  rw [Notation.read, Reading.run_eq_ok_iff, ← eq_of_ended_prefix begins, reached] at success
  exact unfinished definition (Option.some.inj success)

theorem Precedes.exists_lexes {text front : List Char} {before : List Token}
    {token : Option Token} (precedes : Precedes text before token front) :
    ∃ read rest, Lexes before read rest := by
  cases precedes with
  | token whole earlier here => exact ⟨_, _, earlier⟩
  | ending whole earlier closing => exact ⟨_, _, earlier⟩

/-- The error names the first token, or the end, with which no text of a definition can go on, and
the line on which it begins. -/
theorem error_at_earliest_token {text : String} {e : SyntaxError} (failed : read text = .error e) :
    ∃ before front, before.map some ++ [e.found] <+: endedTokens text ∧
      Viable (before.map some) ∧ ¬Viable (before.map some ++ [e.found]) ∧
      Precedes text.toList before e.found front ∧ e.line = 1 + front.count '\n' := by
  rcases Reading.exists_of_run_error failed with
    ⟨before, refused, after, reading, whole, reached, refuses, rfl⟩ |
      ⟨reading, reached, unfinished, rfl⟩
  · obtain ⟨front, precedes, line⟩ := exists_precedes_of_scan whole
    obtain ⟨characters, rest, lexes⟩ := precedes.exists_lexes
    refine ⟨before.map Located.token, front, ?_, viable_of_after? lexes reached,
      not_viable_of_step? reached refuses, precedes, line⟩
    rw [endedTokens_eq, whole, List.map_append, List.map_append, List.append_assoc]
    exact (List.prefix_append_right_inj _).mpr ⟨_, rfl⟩
  · have precedes := precedes_end_of_scan (rfl : scan .between 1 text.toList = tokens text)
    obtain ⟨characters, rest, lexes⟩ := precedes.exists_lexes
    refine ⟨(tokens text).map Located.token, text.toList, ?_, viable_of_after? lexes reached,
      not_viable_of_unfinished reached unfinished, precedes, lastLine_eq text⟩
    exact ⟨[], by rw [List.append_nil, endedTokens_eq]⟩

/-- A comma is missing behind a name in quotes that goes on to the next line and a comment. -/
theorem error_at_earliest_token_lines :
    read "\x7b\n a: 'u\n8' # x\n b: i8 \x7d" = .error ⟨4, .commaOrBrace, some (.name "b")⟩ ∧
      ∃ before front, before.map some ++ [some (.name "b")] <+:
          endedTokens "\x7b\n a: 'u\n8' # x\n b: i8 \x7d" ∧
        Viable (before.map some) ∧ ¬Viable (before.map some ++ [some (.name "b")]) ∧
        Precedes "\x7b\n a: 'u\n8' # x\n b: i8 \x7d".toList before (some (.name "b")) front ∧
        4 = 1 + front.count '\n' := by
  have failed : read "\x7b\n a: 'u\n8' # x\n b: i8 \x7d" =
      .error ⟨4, .commaOrBrace, some (.name "b")⟩ := rfl
  exact ⟨failed, error_at_earliest_token failed⟩

end SchemaWire.Notation
