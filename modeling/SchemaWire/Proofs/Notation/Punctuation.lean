import SchemaWire.Proofs.Notation.Reading

/-!
# Punctuation of definitions

The grammar seen from the tokens around one another. A comma comes after a node only, two nodes
never stand side by side, a field name is followed by a colon, and what is no token of the notation
comes nowhere. So a text with a slip of this kind is no definition.
-/

set_option autoImplicit false

namespace SchemaWire.Notation

open Schema (Definition)
open Grammar (Names Node)

/-- A token that can be the last of a node. -/
def Token.Ends : Token → Prop
  | .name _ | .quoted _ | .rightBrace | .rightBracket => True
  | _ => False

/-- A token that can be the first of a node. -/
def Token.Starts : Token → Prop
  | .name _ | .quoted _ | .leftBrace | .leftBracket => True
  | _ => False

/-- The opening brackets that a token leaves open, innermost first. -/
def openAfter (opened : List Token) : Token → List Token
  | .leftBrace => .leftBrace :: opened
  | .leftBracket => .leftBracket :: opened
  | .rightBrace => opened.tail
  | .rightBracket => opened.tail
  | _ => opened

/-- The brackets that are open after tokens, innermost first. -/
def openBrackets (tokens : List Token) : List Token :=
  tokens.foldl openAfter []

/-- What holds between the tokens of a definition. -/
structure Punctuated (tokens : List Token) : Prop where
  known : ∀ token ∈ tokens, token ≠ .unterminated ∧ ∀ c, token ≠ .unexpected c
  comma : ∀ before after, tokens = before ++ .comma :: after →
    ∃ last, before.getLast? = some last ∧ last.Ends
  separator : ∀ before left right after, tokens = before ++ left :: right :: after →
    left.Ends → ¬right.Starts
  colon : ∀ before mark token name after, tokens = before ++ mark :: token :: after →
    mark = .leftBrace ∨ mark = .comma →
      (openBrackets (before ++ [mark])).head? = some .leftBrace →
        Names token name → ∃ rest, after = .colon :: rest

namespace Reading

variable {reading next : Reading} {token : Token} {definition : Definition}

/-! ## Brackets -/

/-- The bracket that opened a container. -/
def bracketOf : Opened → Token
  | .mapping _ _ => .leftBrace
  | .sequence _ => .leftBracket

def brackets : Reading → List Token
  | node outer => outer.map bracketOf
  | item _ outer => .leftBracket :: outer.map bracketOf
  | field _ outer => .leftBrace :: outer.map bracketOf
  | colon _ _ outer => .leftBrace :: outer.map bracketOf
  | afterField _ outer => .leftBrace :: outer.map bracketOf
  | afterItem _ outer => .leftBracket :: outer.map bracketOf
  | complete _ => []

theorem brackets_finish (definition : Definition) (outer : List Opened) :
    (finish definition outer).brackets = outer.map bracketOf := by
  cases outer with
  | nil => rfl
  | cons opened outer => cases opened <;> rfl

theorem Awaits.brackets {outer : List Opened} (awaits : reading.Awaits outer) :
    reading.brackets = outer.map bracketOf := by
  cases awaits <;> rfl

theorem Moves.brackets (moves : Moves reading token next) :
    next.brackets = openAfter reading.brackets token := by
  cases moves with
  | openMapping awaits | openSequence awaits =>
      rw [awaits.brackets]
      rfl
  | leaf awaits named =>
      rw [brackets_finish, awaits.brackets]
      cases named <;> rfl
  | noItem | noField | lastField | lastItem =>
      rw [brackets_finish]
      rfl
  | key fields outer named => cases named <;> rfl
  | value | nextField | nextItem => rfl

theorem brackets_of_after? {tokens : List Token} (read : reading.after? tokens = some next) :
    next.brackets = tokens.foldl openAfter reading.brackets := by
  induction tokens generalizing reading with
  | nil =>
      cases read
      rfl
  | cons token rest ih =>
      rw [after?_cons] at read
      obtain ⟨between, step, read⟩ := Option.bind_eq_some_iff.mp read
      rw [ih read, (moves_of_step? step).brackets, List.foldl_cons]

/-! ## After a node -/

/-- The machine stands right after a node. -/
def AfterNode : Reading → Prop
  | afterField _ _ | afterItem _ _ | complete _ => True
  | node _ | item _ _ | field _ _ | colon _ _ _ => False

theorem afterNode_finish (definition : Definition) (outer : List Opened) :
    (finish definition outer).AfterNode := by
  cases outer with
  | nil => trivial
  | cons opened outer => cases opened <;> trivial

theorem ends_of_names {name : String} (named : Names token name) : token.Ends := by
  cases named <;> trivial

/-- Only the last token of a node leads to where a node has ended. -/
theorem Moves.ends (moves : Moves reading token next) (after : next.AfterNode) : token.Ends := by
  cases moves with
  | leaf awaits named => exact ends_of_names named
  | noItem | noField | lastField | lastItem => trivial
  | openMapping | openSequence | key | value | nextField | nextItem => exact after.elim

theorem Moves.afterNode_of_comma (moves : Moves reading .comma next) : reading.AfterNode := by
  cases moves with
  | leaf awaits named => cases named
  | key fields outer named => cases named
  | nextField | nextItem => trivial

/-- The last token of a node can also be the name of a field. -/
theorem Moves.afterNode_or_colon (moves : Moves reading token next) (ends : token.Ends) :
    next.AfterNode ∨ ∃ fields name outer, next = colon fields name outer := by
  cases moves with
  | leaf | noItem | noField | lastField | lastItem => exact .inl (afterNode_finish _ _)
  | key fields outer named => exact .inr ⟨fields, _, outer, rfl⟩
  | openMapping | openSequence | value | nextField | nextItem => exact ends.elim

theorem Moves.not_starts_of_afterNode (moves : Moves reading token next)
    (after : reading.AfterNode) : ¬token.Starts := by
  cases moves with
  | openMapping awaits | openSequence awaits | leaf awaits =>
      cases awaits <;> exact after.elim
  | nextField | lastField | nextItem | lastItem => exact id
  | noItem | noField | key | value => exact after.elim

theorem Moves.eq_colon {fields : List (String × Definition)} {name : String} {outer : List Opened}
    (moves : Moves (colon fields name outer) token next) : token = .colon := by
  cases moves with
  | openMapping awaits | openSequence awaits | leaf awaits => cases awaits
  | value => rfl

/-- A mark before a field name leads to where a field name can come. -/
theorem Moves.eq_field (moves : Moves reading token next)
    (mark : token = .leftBrace ∨ token = .comma)
    (inside : next.brackets.head? = some .leftBrace) :
    ∃ fields outer, next = field fields outer := by
  cases moves with
  | openMapping => exact ⟨_, _, rfl⟩
  | nextField fields outer => exact ⟨fields, outer, rfl⟩
  | nextItem => simp [Reading.brackets] at inside
  | leaf awaits named | key _ _ named => cases named <;> simp at mark
  | openSequence | noItem | noField | value | lastField | lastItem => simp at mark

theorem Moves.eq_colon_of_names {fields : List (String × Definition)} {name : String}
    {outer : List Opened} (moves : Moves (field fields outer) token next)
    (named : Names token name) : ∃ key, next = colon fields key outer := by
  cases moves with
  | key _ _ found => exact ⟨_, rfl⟩
  | noField => cases named
  | openMapping awaits | openSequence awaits | leaf awaits => cases awaits

theorem Moves.known (moves : Moves reading token next) :
    token ≠ .unterminated ∧ ∀ c, token ≠ .unexpected c := by
  cases moves with
  | leaf awaits named | key _ _ named => cases named <;> simp
  | _ => simp

/-! ## Runs -/

/-- The machine takes every token of what it reads to the end. -/
theorem exists_moves {before after : List Token}
    (read : (node []).after? (before ++ token :: after) = some (complete definition)) :
    ∃ reading next, (node []).after? before = some reading ∧ Moves reading token next ∧
      next.after? after = some (complete definition) := by
  rw [after?_append] at read
  obtain ⟨reading, front, read⟩ := Option.bind_eq_some_iff.mp read
  rw [after?_cons] at read
  obtain ⟨next, step, read⟩ := Option.bind_eq_some_iff.mp read
  exact ⟨reading, next, front, moves_of_step? step, read⟩

theorem after?_concat {front : List Token} (read : reading.after? (front ++ [token]) = some next) :
    ∃ between, reading.after? front = some between ∧ Moves between token next := by
  rw [after?_append] at read
  obtain ⟨between, first, read⟩ := Option.bind_eq_some_iff.mp read
  rw [after?_cons] at read
  obtain ⟨last, step, same⟩ := Option.bind_eq_some_iff.mp read
  cases same
  exact ⟨between, first, moves_of_step? step⟩

theorem exists_rest_of_colon {fields : List (String × Definition)} {name : String}
    {outer : List Opened} {tokens : List Token}
    (read : (colon fields name outer).after? tokens = some (complete definition)) :
    ∃ rest, tokens = .colon :: rest := by
  cases tokens with
  | nil => cases read
  | cons token rest =>
      rw [after?_cons] at read
      obtain ⟨next, step, -⟩ := Option.bind_eq_some_iff.mp read
      rw [(moves_of_step? step).eq_colon]
      exact ⟨rest, rfl⟩

theorem punctuated_of_after? {tokens : List Token}
    (read : (node []).after? tokens = some (complete definition)) : Punctuated tokens where
  known token member := by
    obtain ⟨before, after, rfl⟩ := List.append_of_mem member
    obtain ⟨reading, next, -, moves, -⟩ := exists_moves read
    exact moves.known
  comma before after same := by
    subst same
    obtain ⟨reading, next, front, moves, -⟩ := exists_moves read
    have after := moves.afterNode_of_comma
    rcases List.eq_nil_or_concat before with rfl | ⟨start, last, same⟩
    · cases front
      exact after.elim
    · rw [List.concat_eq_append] at same
      subst same
      obtain ⟨between, -, step⟩ := after?_concat front
      exact ⟨last, List.getLast?_concat, step.ends after⟩
  separator before left right after same ends := by
    subst same
    obtain ⟨reading, next, -, first, read⟩ := exists_moves read
    rw [after?_cons] at read
    obtain ⟨last, step, -⟩ := Option.bind_eq_some_iff.mp read
    rcases first.afterNode_or_colon ends with finished | ⟨fields, name, outer, rfl⟩
    · exact (moves_of_step? step).not_starts_of_afterNode finished
    · rw [(moves_of_step? step).eq_colon]
      exact id
  colon before mark token name after same marked inside named := by
    subst same
    obtain ⟨reading, next, front, first, read⟩ := exists_moves read
    have whole : (node []).after? (before ++ [mark]) = some next := by
      rw [after?_append_of_after? front, after?_cons_of_moves first]
      rfl
    have opened : next.brackets = openBrackets (before ++ [mark]) := brackets_of_after? whole
    rw [← opened] at inside
    obtain ⟨fields, outer, rfl⟩ := first.eq_field marked inside
    rw [after?_cons] at read
    obtain ⟨between, step, read⟩ := Option.bind_eq_some_iff.mp read
    obtain ⟨key, rfl⟩ := (moves_of_step? step).eq_colon_of_names named
    exact exists_rest_of_colon read

end Reading

/-- A text is read as a definition exactly if the grammar derives it from all of its tokens, which
can be in one way only. -/
theorem read_by_grammar (text : String) :
    (∀ definition, read text = .ok definition ↔
      Node ((tokens text).map Located.token) definition) ∧
    (∀ (tokens : List Token) (left right : Definition), Node tokens left → Node tokens right →
      left = right) ∧
    ∀ definition, read text = .ok definition → Punctuated ((tokens text).map Located.token) := by
  refine ⟨?reads, ?unambiguous, ?punctuated⟩
  case reads =>
    intro definition
    rw [read, Reading.run_eq_ok_iff, Reading.after?_eq_complete_iff]
  case unambiguous =>
    intro tokens left right first second
    have same := (Reading.after?_of_node first).symm.trans (Reading.after?_of_node second)
    cases same
    rfl
  case punctuated =>
    intro definition success
    rw [read, Reading.run_eq_ok_iff] at success
    exact Reading.punctuated_of_after? success

theorem read_by_grammar_nested :
    read "\x7b 'a b': [u8, \x7bx: t,\x7d,] \x7d" =
        .ok (.mapping [("a b", .sequence [.type "u8", .mapping [("x", .type "t")]])]) ∧
      Punctuated [.leftBrace, .quoted "a b", .colon, .leftBracket, .name "u8", .comma, .leftBrace,
        .name "x", .colon, .name "t", .comma, .rightBrace, .comma, .rightBracket, .rightBrace] ∧
      ∀ definition, read "[u8,,]" ≠ .ok definition := by
  have spelled : (tokens "\x7b 'a b': [u8, \x7bx: t,\x7d,] \x7d").map Located.token =
      [.leftBrace, .quoted "a b", .colon, .leftBracket, .name "u8", .comma, .leftBrace,
        .name "x", .colon, .name "t", .comma, .rightBrace, .comma, .rightBracket, .rightBrace] :=
    rfl
  have inner : Node [.leftBrace, .name "x", .colon, .name "t", .comma, .rightBrace]
      (.mapping [("x", .type "t")]) :=
    .mapping (.one (.mk (.name "x") (.type (.name "t")))) .present
  have outer : Node [.leftBracket, .name "u8", .comma, .leftBrace, .name "x", .colon, .name "t",
      .comma, .rightBrace, .comma, .rightBracket]
        (.sequence [.type "u8", .mapping [("x", .type "t")]]) :=
    .sequence (.more (.type (.name "u8")) (.one inner)) .present
  have whole : Node [.leftBrace, .quoted "a b", .colon, .leftBracket, .name "u8", .comma,
      .leftBrace, .name "x", .colon, .name "t", .comma, .rightBrace, .comma, .rightBracket,
      .rightBrace] (.mapping [("a b", .sequence [.type "u8", .mapping [("x", .type "t")]])]) :=
    .mapping (.one (.mk (.quoted "a b") outer)) .absent
  obtain ⟨derives, -, punctuated⟩ := read_by_grammar "\x7b 'a b': [u8, \x7bx: t,\x7d,] \x7d"
  rw [spelled] at derives punctuated
  have success := (derives _).mpr whole
  refine ⟨success, punctuated _ success, fun definition doubled => ?_⟩
  -- What stands before the second comma is a comma, so no node ends there.
  obtain ⟨last, same, ends⟩ := ((read_by_grammar "[u8,,]").2.2 definition doubled).comma
    [.leftBracket, .name "u8", .comma] [.rightBracket] rfl
  cases same
  exact ends

end SchemaWire.Notation
