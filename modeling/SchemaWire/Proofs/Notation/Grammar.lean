import SchemaWire.Notation.Token
import SchemaWire.Schema.Definition

/-!
# The grammar of the schema notation

Which tokens spell which definition, apart from any way of reading them:

    node  ::= NAME | QUOTED
            | LEFTBRACE RIGHTBRACE | LEFTBRACE entry (COMMA entry)* [COMMA] RIGHTBRACE
            | LEFTBRACKET RIGHTBRACKET | LEFTBRACKET node (COMMA node)* [COMMA] RIGHTBRACKET
    entry ::= (NAME | QUOTED) COLON node

Entries and elements keep their order, and names may be repeated.
-/

set_option autoImplicit false

namespace SchemaWire.Notation.Grammar

open Schema (Definition)

/-- A token that stands for a text: a name with or without quotes. -/
inductive Names : Token → String → Prop where
  | name (text : String) : Names (.name text) text
  | quoted (text : String) : Names (.quoted text) text

/-- One or more parts with a comma between any two. -/
inductive Separated {α : Type} (part : List Token → α → Prop) : List Token → List α → Prop where
  | one {tokens : List Token} {value : α} (first : part tokens value) :
      Separated part tokens [value]
  | more {tokens rest : List Token} {value : α} {values : List α} (first : part tokens value)
      (others : Separated part rest values) :
      Separated part (tokens ++ .comma :: rest) (value :: values)

/-- A comma that may be left out. -/
inductive OptionalComma : List Token → Prop where
  | absent : OptionalComma []
  | present : OptionalComma [.comma]

mutual

inductive Node : List Token → Definition → Prop where
  | type {token : Token} {text : String} (named : Names token text) : Node [token] (.type text)
  | emptyMapping : Node [.leftBrace, .rightBrace] (.mapping [])
  | mapping {tokens comma : List Token} {fields : List (String × Definition)}
      (entries : Separated Entry tokens fields) (trailing : OptionalComma comma) :
      Node (.leftBrace :: (tokens ++ comma ++ [.rightBrace])) (.mapping fields)
  | emptySequence : Node [.leftBracket, .rightBracket] (.sequence [])
  | sequence {tokens comma : List Token} {items : List Definition}
      (nodes : Separated Node tokens items) (trailing : OptionalComma comma) :
      Node (.leftBracket :: (tokens ++ comma ++ [.rightBracket])) (.sequence items)

inductive Entry : List Token → String × Definition → Prop where
  | mk {token : Token} {name : String} {tokens : List Token} {definition : Definition}
      (named : Names token name) (child : Node tokens definition) :
      Entry (token :: .colon :: tokens) (name, definition)

end

/-- Induction on a node, where a container has the property for its parts. -/
@[elab_as_elim]
theorem Node.induction {node : List Token → Definition → Prop}
    {entry : List Token → String × Definition → Prop}
    (type : ∀ {token : Token} {text : String}, Names token text → node [token] (.type text))
    (emptyMapping : node [.leftBrace, .rightBrace] (.mapping []))
    (mapping : ∀ {tokens comma : List Token} {fields : List (String × Definition)},
      Separated entry tokens fields → OptionalComma comma →
        node (.leftBrace :: (tokens ++ comma ++ [.rightBrace])) (.mapping fields))
    (emptySequence : node [.leftBracket, .rightBracket] (.sequence []))
    (sequence : ∀ {tokens comma : List Token} {items : List Definition},
      Separated node tokens items → OptionalComma comma →
        node (.leftBracket :: (tokens ++ comma ++ [.rightBracket])) (.sequence items))
    (keyed : ∀ {token : Token} {name : String} {tokens : List Token} {definition : Definition},
      Names token name → node tokens definition →
        entry (token :: .colon :: tokens) (name, definition)) :
    ∀ {tokens : List Token} {definition : Definition}, Node tokens definition →
      node tokens definition :=
  @Node.rec (fun tokens definition _ => node tokens definition)
    (fun tokens field _ => entry tokens field)
    (fun tokens fields _ => Separated entry tokens fields)
    (fun tokens items _ => Separated node tokens items) type emptyMapping
    (fun _ trailing entries => mapping entries trailing) emptySequence
    (fun _ trailing nodes => sequence nodes trailing) (fun named _ child => keyed named child)
    (fun _ first => .one first) (fun _ _ first others => .more first others)
    (fun _ first => .one first) (fun _ _ first others => .more first others)

/-! ## Parts -/

variable {α : Type} {part : List Token → α → Prop}

theorem Separated.append {tokens rest : List Token} {values : List α} {value : α}
    (parts : Separated part tokens values) (last : part rest value) :
    Separated part (tokens ++ .comma :: rest) (values ++ [value]) := by
  induction parts with
  | one first => exact .more first (.one last)
  | more first others ih =>
      rw [List.append_assoc, List.cons_append, List.cons_append]
      exact .more first ih

/-- Any number of parts with a comma after each. -/
inductive Terminated (part : List Token → α → Prop) : List Token → List α → Prop where
  | nil : Terminated part [] []
  | comma {tokens : List Token} {values : List α} (parts : Separated part tokens values) :
      Terminated part (tokens ++ [.comma]) values

theorem Terminated.append {tokens rest : List Token} {values : List α} {value : α}
    (parts : Terminated part tokens values) (last : part rest value) :
    Separated part (tokens ++ rest) (values ++ [value]) := by
  cases parts with
  | nil => exact .one last
  | comma parts =>
      rw [List.append_assoc, List.singleton_append]
      exact parts.append last

theorem Terminated.mapping {tokens : List Token} {fields : List (String × Definition)}
    (entries : Terminated Entry tokens fields) :
    Node (.leftBrace :: (tokens ++ [.rightBrace])) (.mapping fields) := by
  cases entries with
  | nil => exact .emptyMapping
  | comma entries => exact .mapping entries .present

theorem Terminated.sequence {tokens : List Token} {items : List Definition}
    (nodes : Terminated Node tokens items) :
    Node (.leftBracket :: (tokens ++ [.rightBracket])) (.sequence items) := by
  cases nodes with
  | nil => exact .emptySequence
  | comma nodes => exact .sequence nodes .present

theorem Separated.mapping {tokens : List Token} {fields : List (String × Definition)}
    (entries : Separated Entry tokens fields) :
    Node (.leftBrace :: (tokens ++ [.rightBrace])) (.mapping fields) := by
  have node := Node.mapping entries .absent
  rwa [List.append_nil] at node

theorem Separated.sequence {tokens : List Token} {items : List Definition}
    (nodes : Separated Node tokens items) :
    Node (.leftBracket :: (tokens ++ [.rightBracket])) (.sequence items) := by
  have node := Node.sequence nodes .absent
  rwa [List.append_nil] at node

end SchemaWire.Notation.Grammar
