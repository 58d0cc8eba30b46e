import SchemaWire.Proofs.Notation.Json
import SchemaWire.Proofs.Notation.Reading
import SchemaWire.Proofs.Notation.Spelling

/-!
# Reading JSON documents

A JSON text of objects, arrays and strings is a text of the schema notation: it is read as a
definition of the same structure in the same order. The names are those that the text denotes
exactly if none of the escapes `\b`, `\f`, `\r` and `\u` occurs.
-/

set_option autoImplicit false

namespace SchemaWire.Notation.Json

open Schema (Definition)
open Grammar (Node Entry Separated)

/-! ## Tokens of texts -/

/-- The characters are read as these tokens, whatever comes behind them. -/
def Scans (text : List Char) (tokens : List Token) : Prop :=
  ∀ rest others, Yields .between rest others → Yields .between (text ++ rest) (tokens ++ others)

theorem Scans.append {text others : List Char} {tokens more : List Token}
    (first : Scans text tokens) (second : Scans others more) :
    Scans (text ++ others) (tokens ++ more) := by
  intro rest remaining after
  rw [List.append_assoc, List.append_assoc]
  exact first _ _ (second _ _ after)

theorem Scans.tokens_eq {text : String} {tokens : List Token} (scans : Scans text.toList tokens) :
    (Notation.tokens text).map Located.token = tokens := by
  have whole := scans [] [] (fun _ => rfl) 1
  rwa [List.append_nil, List.append_nil] at whole

theorem Space.scans {text : List Char} (space : Space text) : Scans text [] := by
  intro rest others after
  have white : ∀ c ∈ [' ', '\t', '\n', '\r'], Unicode.isWhiteSpace c = true :=
    List.all_eq_true.mp rfl
  refine Blank.yields ?_ after
  induction text with
  | nil => exact .nil
  | cons c text ih =>
      obtain ⟨first, remaining⟩ := List.forall_mem_cons.mp space
      exact .space (white c first) (ih remaining)

theorem Structural.scans {mark : Char} {token : Token} {text : List Char}
    (structural : Structural mark text) (spelled : Spelled token [mark])
    (other : ¬token.IsName) : Scans text [token] := by
  cases structural with
  | @mk before after left right =>
      have here : Scans [mark] [token] := fun _ _ =>
        spelled.yields fun named => absurd named other
      exact left.scans.append (here.append right.scans)

/-- A hexadecimal digit needs no backslash. -/
theorem HexDigit.unescaped (digit : HexDigit) : digit.char ≠ '"' ∧ digit.char ≠ '\\' := by
  obtain ⟨c, value, denotes⟩ := digit
  constructor
  · rintro rfl
    cases denotes
  · rintro rfl
    cases denotes

theorem Piece.content (piece : Piece) {written text : List Char}
    (others : Content '"' written text) :
    Content '"' (piece.written ++ written) (piece.asRead ++ text) := by
  cases piece with
  | plain c unescaped => exact .plain unescaped.2.1 unescaped.2.2 others
  | escape e => exact .escape e.mark others
  | unit first second third fourth =>
      have digit : ∀ (digit : HexDigit) {written text : List Char}, Content '"' written text →
          Content '"' (digit.char :: written) (digit.char :: text) := fun digit _ _ others =>
        .plain digit.unescaped.1 digit.unescaped.2 others
      exact .escape 'u' (digit first (digit second (digit third (digit fourth others))))

theorem content_of_pieces (pieces : List Piece) :
    Content '"' (pieces.flatMap Piece.written) (pieces.flatMap Piece.asRead) := by
  induction pieces with
  | nil => exact .nil
  | cons piece rest ih =>
      rw [List.flatMap_cons, List.flatMap_cons]
      exact piece.content ih

theorem scans_quoted (pieces : List Piece) :
    Scans (quoted pieces) [.quoted (readName pieces)] := by
  intro rest others after
  rw [quoted, List.cons_append, List.append_assoc, List.singleton_append]
  exact Yields.pass (fun line => .quoted line '"' []) (fun _ => rfl) fun line =>
    (content_of_pieces pieces).yields (.inl rfl) after line []

mutual

/-- The tokens of a document derive its definition. -/
theorem Spells.derives {document : Document} {text : List Char} :
    Spells document text → ∃ tokens, Node tokens (document.definition readName) ∧ Scans text tokens
  | .string pieces => ⟨_, .type (.quoted _), scans_quoted pieces⟩
  | .emptyObject left right =>
      ⟨_, .emptyMapping, (left.scans .leftBrace id).append (right.scans .rightBrace id)⟩
  | .object left inside right => by
      obtain ⟨tokens, entries, scans⟩ := inside.derives
      exact ⟨_, entries.mapping, (left.scans .leftBrace id).append
        (scans.append (right.scans .rightBrace id))⟩
  | .emptyArray left right =>
      ⟨_, .emptySequence, (left.scans .leftBracket id).append (right.scans .rightBracket id)⟩
  | .array left inside right => by
      obtain ⟨tokens, nodes, scans⟩ := inside.derives
      exact ⟨_, nodes.sequence, (left.scans .leftBracket id).append
        (scans.append (right.scans .rightBracket id))⟩

theorem SpellsMember.derives {member : List Piece × Document} {text : List Char} :
    SpellsMember member text → ∃ tokens,
      Entry tokens (readName member.1, member.2.definition readName) ∧ Scans text tokens
  | .mk separator value => by
      obtain ⟨tokens, node, scans⟩ := value.derives
      exact ⟨_, .mk (.quoted _) node,
        (scans_quoted _).append ((separator.scans .colon id).append scans)⟩

theorem SpellsMembers.derives {members : List (List Piece × Document)} {text : List Char} :
    SpellsMembers members text → ∃ tokens,
      Separated Entry tokens (Document.fields readName members) ∧ Scans text tokens
  | .one first => by
      obtain ⟨tokens, entry, scans⟩ := first.derives
      exact ⟨tokens, .one entry, scans⟩
  | .more first separator others => by
      obtain ⟨tokens, entry, scans⟩ := first.derives
      obtain ⟨rest, entries, restScans⟩ := others.derives
      exact ⟨_, .more entry entries,
        scans.append ((separator.scans .comma id).append restScans)⟩

theorem SpellsItems.derives {items : List Document} {text : List Char} :
    SpellsItems items text → ∃ tokens,
      Separated Node tokens (Document.elements readName items) ∧ Scans text tokens
  | .one first => by
      obtain ⟨tokens, node, scans⟩ := first.derives
      exact ⟨tokens, .one node, scans⟩
  | .more first separator others => by
      obtain ⟨tokens, node, scans⟩ := first.derives
      obtain ⟨rest, nodes, restScans⟩ := others.derives
      exact ⟨_, .more node nodes, scans.append ((separator.scans .comma id).append restScans)⟩

end

theorem Document.Text.read_eq {document : Document} {text : String}
    (json : document.Text text.toList) : read text = .ok (document.definition readName) := by
  generalize chars : text.toList = characters at json
  cases json with
  | mk left spells right =>
      obtain ⟨tokens, node, scans⟩ := spells.derives
      have whole := left.scans.append (scans.append right.scans)
      rw [← chars, List.nil_append, List.append_nil] at whole
      rw [read, Reading.run_eq_ok_iff, Reading.after?_eq_complete_iff, whole.tokens_eq]
      exact node

/-! ## Definitions of texts -/

/-- Every document is read with its structure and its order. It is read as what it denotes exactly
if it has none of the escapes that the notation does not know. -/
theorem read_of_json {document : Document} {text : String} (json : document.Text text.toList) :
    read text = .ok (document.definition readName) ∧
      ((∃ definition, read text = .ok definition ∧ document.Denotes definition) ↔
        ∀ pieces, document.HasString pieces → ∀ piece ∈ pieces, piece.Known) := by
  have success := json.read_eq
  refine ⟨success, ?_⟩
  rw [← Document.denotes_definition_iff]
  constructor
  · rintro ⟨definition, same, denotes⟩
    cases success.symm.trans same
    exact denotes
  · exact fun denotes => ⟨_, success, denotes⟩

/-- Escapes that are the same in both notations, a character of two units, and white space. -/
theorem read_of_json_shared :
    ∃ document : Document,
      document.Text "\x7b\"\\/\\n\" :\t[\"\\\"😀\"]\r\n\x7d".toList ∧
        (∀ pieces, document.HasString pieces → ∀ piece ∈ pieces, piece.Known) ∧
        read "\x7b\"\\/\\n\" :\t[\"\\\"😀\"]\r\n\x7d" =
          .ok (.mapping [("/\n", .sequence [.type "\"😀"])]) ∧
        document.Denotes (.mapping [("/\n", .sequence [.type "\"😀"])]) := by
  have none : Space [] := List.forall_mem_nil _
  have blank : Space [' '] := by simp [Space]
  have tab : Space ['\t'] := by simp [Space]
  have line : Space ['\r', '\n'] := by simp [Space]
  have json : Document.Text
      (.object [([.escape .slash, .escape .lineFeed],
        .array [.string [.escape .quote, .plain '😀' (by decide)]])])
      "\x7b\"\\/\\n\" :\t[\"\\\"😀\"]\r\n\x7d".toList :=
    .mk none (.object (.mk none none) (.one (.mk (.mk blank tab)
      (.array (.mk none none) (.one (.string _)) (.mk none line)))) (.mk none none)) none
  have known : ∀ pieces, Document.HasString pieces
      (.object [([.escape .slash, .escape .lineFeed],
        .array [.string [.escape .quote, .plain '😀' (by decide)]])]) →
      ∀ piece ∈ pieces, piece.Known := by
    intro pieces occurs
    simp only [Document.hasString_object_iff, Document.hasString_array_iff,
      Document.hasString_string_iff, List.mem_singleton, exists_eq_left] at occurs
    rcases occurs with rfl | rfl <;> simp [Piece.Known]
  obtain ⟨success, same⟩ := read_of_json json
  obtain ⟨definition, found, denotes⟩ := same.mpr known
  cases success.symm.trans found
  exact ⟨_, json, known, success, denotes⟩

/-- A unit of four digits is read as these digits behind the letter. -/
theorem read_of_json_unit :
    (∃ document : Document, document.Text "\x7b\"\\u0062\":\"bool\"\x7d".toList ∧
      document.Denotes (.mapping [("b", .type "bool")])) ∧
      read "\x7b\"\\u0062\":\"bool\"\x7d" = .ok (.mapping [("u0062", .type "bool")]) ∧
      read "\x7b\"\\u0062\":\"bool\"\x7d" ≠ .ok (.mapping [("b", .type "bool")]) := by
  have none : Space [] := List.forall_mem_nil _
  have success : read "\x7b\"\\u0062\":\"bool\"\x7d" =
      .ok (.mapping [("u0062", .type "bool")]) := rfl
  refine ⟨⟨.object [([.unit ⟨'0', 0, rfl⟩ ⟨'0', 0, rfl⟩ ⟨'6', 6, rfl⟩ ⟨'2', 2, rfl⟩],
    .string [.plain 'b' (by decide), .plain 'o' (by decide), .plain 'o' (by decide),
      .plain 'l' (by decide)])], ?text, ?denotes⟩, success, ?differs⟩
  case text =>
    exact .mk none (.object (.mk none none) (.one (.mk (.mk none none) (.string _)))
      (.mk none none)) none
  case denotes =>
    refine ⟨fun pieces => if pieces.length = 1 then "b" else "bool", fun pieces occurs => ?_, rfl⟩
    simp only [Document.hasString_object_iff, Document.hasString_string_iff, List.mem_singleton,
      exists_eq_left] at occurs
    rcases occurs with rfl | rfl <;> rfl
  case differs =>
    rw [success]
    simp

end SchemaWire.Notation.Json
