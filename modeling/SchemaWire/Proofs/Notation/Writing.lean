import SchemaWire.Proofs.Notation.Punctuation
import SchemaWire.Proofs.Notation.Spelling
import SchemaWire.Proofs.Schema.Layout

/-!
# Writing definitions

Every definition has a text: tokens from which the grammar derives it, spelled one after another.
The author is free in the choice of quotes, escapes and trailing commas, and in white space and
comments. Whatever is chosen, the text is read as the definition.
-/

set_option autoImplicit false

namespace SchemaWire.Notation

open Schema (Definition)
open Grammar (Names Node Entry Separated)

/-- A text of a definition. -/
def Written (definition : Definition) (text : String) : Prop :=
  ∃ tokens, Node tokens definition ∧ Spaced tokens text.toList

/-! ## Every definition has a text -/

/-- Tokens that can be written one after another. -/
def Spellable (tokens : List Token) : Prop :=
  ∀ token ∈ tokens, ∃ spelling, Spelled token spelling

theorem Spellable.append {first second : List Token} (left : Spellable first)
    (right : Spellable second) : Spellable (first ++ second) :=
  fun token member => (List.mem_append.mp member).elim (left token) (right token)

theorem Spellable.cons {token : Token} {tokens : List Token} {spelling : List Char}
    (spelled : Spelled token spelling) (others : Spellable tokens) : Spellable (token :: tokens) :=
  List.forall_mem_cons.mpr ⟨⟨spelling, spelled⟩, others⟩

theorem spellable_nil : Spellable [] :=
  List.forall_mem_nil _

theorem Spellable.exists_spaced {tokens : List Token} (spellable : Spellable tokens) :
    ∃ text, Spaced tokens text := by
  induction tokens with
  | nil => exact ⟨[], .nil (.blank .nil)⟩
  | cons token tokens ih =>
      obtain ⟨⟨spelling, spelled⟩, others⟩ := List.forall_mem_cons.mp spellable
      obtain ⟨text, spaced⟩ := ih others
      exact ⟨_, .cons .nil spelled spaced⟩

theorem exists_escaped (quote : Char) (text : List Char) : ∃ written, Escaped quote text written := by
  induction text with
  | nil => exact ⟨[], .nil⟩
  | cons c text ih =>
      obtain ⟨written, escaped⟩ := ih
      by_cases special : c = quote ∨ c = '\\'
      · exact ⟨_, .backslash special escaped⟩
      · obtain ⟨notQuote, notBackslash⟩ := not_or.mp special
        exact ⟨_, .plain notQuote notBackslash escaped⟩

/-- Any text can be a name in quotes. -/
theorem exists_spelled_quoted (text : String) : ∃ spelling, Spelled (.quoted text) spelling := by
  obtain ⟨written, escaped⟩ := exists_escaped '"' text.toList
  exact ⟨_, .quoted (.inl rfl) escaped⟩

theorem exists_separated {α : Type} {part : List Token → α → Prop} {values : List α}
    (nonempty : values ≠ [])
    (each : ∀ value ∈ values, ∃ tokens, part tokens value ∧ Spellable tokens) :
    ∃ tokens, Separated part tokens values ∧ Spellable tokens := by
  induction values with
  | nil => exact absurd rfl nonempty
  | cons value values ih =>
      obtain ⟨⟨tokens, derived, spellable⟩, others⟩ := List.forall_mem_cons.mp each
      cases values with
      | nil => exact ⟨tokens, .one derived, spellable⟩
      | cons next values =>
          obtain ⟨rest, separated, restSpellable⟩ := ih (List.cons_ne_nil _ _) others
          exact ⟨_, .more derived separated, spellable.append (restSpellable.cons .comma)⟩

theorem exists_node (definition : Definition) :
    ∃ tokens, Node tokens definition ∧ Spellable tokens := by
  induction definition with
  | type name =>
      obtain ⟨spelling, spelled⟩ := exists_spelled_quoted name
      exact ⟨_, .type (.quoted name), spellable_nil.cons spelled⟩
  | mapping fields ih =>
      by_cases empty : fields = []
      · subst empty
        exact ⟨_, .emptyMapping, (spellable_nil.cons .rightBrace).cons .leftBrace⟩
      · obtain ⟨tokens, separated, spellable⟩ :=
          @exists_separated _ Entry fields empty fun field member => by
            obtain ⟨tokens, derived, spellable⟩ := ih field member
            obtain ⟨spelling, spelled⟩ := exists_spelled_quoted field.1
            exact ⟨_, .mk (.quoted field.1) derived, (spellable.cons .colon).cons spelled⟩
        exact ⟨_, separated.mapping,
          (spellable.append (spellable_nil.cons .rightBrace)).cons .leftBrace⟩
  | sequence items ih =>
      by_cases empty : items = []
      · subst empty
        exact ⟨_, .emptySequence, (spellable_nil.cons .rightBracket).cons .leftBracket⟩
      · obtain ⟨tokens, separated, spellable⟩ := exists_separated empty ih
        exact ⟨_, separated.sequence,
          (spellable.append (spellable_nil.cons .rightBracket)).cons .leftBracket⟩

theorem exists_written (definition : Definition) : ∃ text, Written definition text := by
  obtain ⟨tokens, derived, spellable⟩ := exists_node definition
  obtain ⟨text, spaced⟩ := spellable.exists_spaced
  refine ⟨String.ofList text, tokens, derived, ?_⟩
  rwa [String.toList_ofList]

/-! ## Every text is read -/

/-- A name ends a node and begins one, so two names never stand side by side in a definition. -/
theorem Punctuated.namesApart {tokens : List Token} (punctuated : Punctuated tokens) :
    NamesApart tokens := by
  intro before left right after same leftName rightName
  have ends : left.Ends := by
    cases left with
    | name text => trivial
    | _ => exact leftName.elim
  have starts : right.Starts := by
    cases right with
    | name text => trivial
    | _ => exact rightName.elim
  exact punctuated.separator before left right after same ends starts

/-- Every definition can be written, and every way of writing it is read back as this definition. -/
theorem read_of_written (definition : Definition) :
    (∃ text, Written definition text) ∧
      ∀ text, Written definition text → read text = .ok definition := by
  refine ⟨exists_written definition, fun text written => ?_⟩
  obtain ⟨tokens, derived, spaced⟩ := written
  have complete := Reading.after?_of_node derived
  have apart := (Reading.punctuated_of_after? complete).namesApart
  rw [read, Reading.run_eq_ok_iff, tokens_of_spaced spaced apart, complete]

/-- A name up against a comment, comment marks and quotes inside quotes, a repeated and an empty
name, trailing commas, and a last comment without line feed. -/
theorem read_of_written_marks :
    Written (.mapping [("$", .sequence [.type "#'\n"]), ("", .mapping []), ("$", .type "_")])
        "\x7b$//x\n:['#\\'\\n',],\"\":\x7b\x7d, $:_,\x7d#" ∧
      read "\x7b$//x\n:['#\\'\\n',],\"\":\x7b\x7d, $:_,\x7d#" =
        .ok (.mapping [("$", .sequence [.type "#'\n"]), ("", .mapping []), ("$", .type "_")]) := by
  have items : Node [.leftBracket, .quoted "#'\n", .comma, .rightBracket]
      (.sequence [.type "#'\n"]) :=
    .sequence (.one (.type (.quoted "#'\n"))) .present
  have derived : Node [.leftBrace, .name "$", .colon, .leftBracket, .quoted "#'\n", .comma,
      .rightBracket, .comma, .quoted "", .colon, .leftBrace, .rightBrace, .comma, .name "$", .colon,
      .name "_", .comma, .rightBrace]
      (.mapping [("$", .sequence [.type "#'\n"]), ("", .mapping []), ("$", .type "_")]) :=
    .mapping (.more (.mk (.name "$") items) (.more (.mk (.quoted "") .emptyMapping)
      (.one (.mk (.name "$") (.type (.name "_")))))) .present
  have single : '\n' ∉ ['x'] := by decide
  have comment : Blank ['/', '/', 'x', '\n'] := .comment .slashes single .nil
  have space : Blank [' '] := .space (by decide) .nil
  have mark : ∀ c, c = '_' ∨ c = '$' → Text.isNameChar c = true := by
    intro c either
    rcases either with rfl | rfl <;> simp [Text.isNameChar]
  have dollar : Spelled (.name "$") ['$'] :=
    .name (by decide) (List.forall_mem_singleton.mpr (mark _ (.inr rfl)))
  have underscore : Spelled (.name "_") ['_'] :=
    .name (by decide) (List.forall_mem_singleton.mpr (mark _ (.inl rfl)))
  have nothing : Spelled (.quoted "") ('"' :: ([] ++ ['"'])) := .quoted (.inl rfl) .nil
  have inside : Escaped '\'' ['#', '\'', '\n'] ['#', '\\', '\'', '\\', 'n'] :=
    .plain (by decide) (by decide) (.backslash (.inl rfl) (.lineFeed .nil))
  have marks : Spelled (.quoted "#'\n") ('\'' :: (['#', '\\', '\'', '\\', 'n'] ++ ['\''])) :=
    .quoted (.inr rfl) inside
  have closing : Closing ['#'] := .comment .nil .number (List.not_mem_nil)
  have written : Written
      (.mapping [("$", .sequence [.type "#'\n"]), ("", .mapping []), ("$", .type "_")])
      "\x7b$//x\n:['#\\'\\n',],\"\":\x7b\x7d, $:_,\x7d#" :=
    ⟨_, derived, .cons .nil .leftBrace <| .cons .nil dollar <| .cons comment .colon <|
      .cons .nil .leftBracket <| .cons .nil marks <| .cons .nil .comma <|
      .cons .nil .rightBracket <| .cons .nil .comma <| .cons .nil nothing <| .cons .nil .colon <|
      .cons .nil .leftBrace <| .cons .nil .rightBrace <| .cons .nil .comma <| .cons space dollar <|
      .cons .nil .colon <| .cons .nil underscore <| .cons .nil .comma <| .cons .nil .rightBrace <|
      .nil closing⟩
  exact ⟨written, (read_of_written _).2 _ written⟩

end SchemaWire.Notation
