import SchemaWire.Notation.Reading
import SchemaWire.Proofs.Notation.Grammar

/-!
# Reading by the grammar

The machine that reads tokens accepts exactly what the grammar derives. One way this is an induction
on the derivation, for whatever containers are open around a node. The other way it is an invariant
of the machine: the tokens read so far spell the open containers with their finished parts.
-/

set_option autoImplicit false

namespace SchemaWire.Notation

open Schema (Definition)
open Grammar (Names Node Entry Separated OptionalComma Terminated)

namespace Reading

/-- Where the machine stands after tokens, if it can read them. -/
def after? (reading : Reading) (tokens : List Token) : Option Reading :=
  tokens.foldlM step? reading

theorem after?_cons (reading : Reading) (token : Token) (rest : List Token) :
    reading.after? (token :: rest) = (reading.step? token).bind (after? · rest) :=
  List.foldlM_cons

theorem after?_append (reading : Reading) (first second : List Token) :
    reading.after? (first ++ second) = (reading.after? first).bind (after? · second) :=
  List.foldlM_append

theorem after?_append_of_after? {reading next : Reading} {first : List Token}
    (read : reading.after? first = some next) (second : List Token) :
    reading.after? (first ++ second) = next.after? second := by
  rw [after?_append, read, Option.bind_some]

theorem run_eq_ok_iff {last : Nat} {reading : Reading} {tokens : List Located}
    {definition : Definition} :
    reading.run last tokens = .ok definition ↔
      reading.after? (tokens.map Located.token) = some (complete definition) := by
  induction tokens generalizing reading with
  | nil => cases reading <;> simp [run, after?]
  | cons first rest ih =>
      rw [List.map_cons, after?_cons]
      cases step : reading.step? first.token with
      | none => cases reading <;> simp [run, step]
      | some next =>
          have moved : reading.run last (first :: rest) = next.run last rest := by
            cases reading <;> simp only [run, step]
          rw [moved, ih, Option.bind_some]

/-! ## Moves -/

/-- The machine can read a node that goes into these containers. -/
inductive Awaits : Reading → List Opened → Prop where
  | node (outer : List Opened) : Awaits (node outer) outer
  | item (items : List Definition) (outer : List Opened) :
      Awaits (item items outer) (.sequence items :: outer)

/-- What the machine does with a token, where it takes it. -/
inductive Moves : Reading → Token → Reading → Prop where
  | openMapping {reading : Reading} {outer : List Opened} (awaits : reading.Awaits outer) :
      Moves reading .leftBrace (field [] outer)
  | openSequence {reading : Reading} {outer : List Opened} (awaits : reading.Awaits outer) :
      Moves reading .leftBracket (item [] outer)
  | leaf {reading : Reading} {outer : List Opened} {token : Token} {text : String}
      (awaits : reading.Awaits outer) (named : Names token text) :
      Moves reading token (finish (.type text) outer)
  | noItem (items : List Definition) (outer : List Opened) :
      Moves (item items outer) .rightBracket (finish (.sequence items) outer)
  | noField (fields : List (String × Definition)) (outer : List Opened) :
      Moves (field fields outer) .rightBrace (finish (.mapping fields) outer)
  | key (fields : List (String × Definition)) (outer : List Opened) {token : Token}
      {name : String} (named : Names token name) :
      Moves (field fields outer) token (colon fields name outer)
  | value (fields : List (String × Definition)) (name : String) (outer : List Opened) :
      Moves (colon fields name outer) .colon (node (.mapping fields name :: outer))
  | nextField (fields : List (String × Definition)) (outer : List Opened) :
      Moves (afterField fields outer) .comma (field fields outer)
  | lastField (fields : List (String × Definition)) (outer : List Opened) :
      Moves (afterField fields outer) .rightBrace (finish (.mapping fields) outer)
  | nextItem (items : List Definition) (outer : List Opened) :
      Moves (afterItem items outer) .comma (item items outer)
  | lastItem (items : List Definition) (outer : List Opened) :
      Moves (afterItem items outer) .rightBracket (finish (.sequence items) outer)

theorem Awaits.moves {reading next : Reading} {outer : List Opened} {token : Token}
    (awaits : reading.Awaits outer) (begun : begin? outer token = some next) :
    Moves reading token next := by
  cases token with
  | leftBrace =>
      cases begun
      exact .openMapping awaits
  | leftBracket =>
      cases begun
      exact .openSequence awaits
  | name text =>
      cases begun
      exact .leaf awaits (.name text)
  | quoted text =>
      cases begun
      exact .leaf awaits (.quoted text)
  | _ => cases begun

/-- Only a closing bracket tells an element from any other node. -/
theorem Awaits.step?_eq {reading : Reading} {outer : List Opened} (awaits : reading.Awaits outer)
    {token : Token} (other : token ≠ .rightBracket) :
    reading.step? token = begin? outer token := by
  cases awaits with
  | node => rfl
  | item items outer => cases token <;> first | rfl | exact absurd rfl other

theorem moves_of_step? {reading next : Reading} {token : Token}
    (step : reading.step? token = some next) : Moves reading token next := by
  cases reading with
  | node outer => exact (Awaits.node outer).moves step
  | item items outer =>
      by_cases closes : token = .rightBracket
      · subst closes
        cases step
        exact .noItem items outer
      · rw [(Awaits.item items outer).step?_eq closes] at step
        exact (Awaits.item items outer).moves step
  | field fields outer =>
      cases token with
      | rightBrace =>
          cases step
          exact .noField fields outer
      | name text =>
          cases step
          exact .key fields outer (.name text)
      | quoted text =>
          cases step
          exact .key fields outer (.quoted text)
      | _ => cases step
  | colon fields name outer =>
      cases token with
      | colon =>
          cases step
          exact .value fields name outer
      | _ => cases step
  | afterField fields outer =>
      cases token with
      | comma =>
          cases step
          exact .nextField fields outer
      | rightBrace =>
          cases step
          exact .lastField fields outer
      | _ => cases step
  | afterItem items outer =>
      cases token with
      | comma =>
          cases step
          exact .nextItem items outer
      | rightBracket =>
          cases step
          exact .lastItem items outer
      | _ => cases step
  | complete definition => cases step

theorem step?_of_moves {reading next : Reading} {token : Token} (moves : Moves reading token next) :
    reading.step? token = some next := by
  cases moves with
  | openMapping awaits => exact awaits.step?_eq Token.noConfusion
  | openSequence awaits => exact awaits.step?_eq Token.noConfusion
  | leaf awaits named =>
      cases named with
      | name text => exact awaits.step?_eq Token.noConfusion
      | quoted text => exact awaits.step?_eq Token.noConfusion
  | key fields outer named => cases named <;> rfl
  | noItem | noField | value | nextField | lastField | nextItem | lastItem => rfl

theorem after?_cons_of_moves {reading next : Reading} {token : Token}
    (moves : Moves reading token next) (rest : List Token) :
    reading.after? (token :: rest) = next.after? rest := by
  rw [after?_cons, step?_of_moves moves, Option.bind_some]

/-! ## From derivations -/

/-- The tokens of a node are read as its definition, wherever a node can come. -/
def ReadsNode (tokens : List Token) (definition : Definition) : Prop :=
  ∀ (reading : Reading) (outer : List Opened), reading.Awaits outer →
    reading.after? tokens = some (finish definition outer)

def ReadsEntry (tokens : List Token) (entry : String × Definition) : Prop :=
  ∀ (fields : List (String × Definition)) (outer : List Opened),
    (field fields outer).after? tokens = some (afterField (fields ++ [entry]) outer)

theorem after?_entries {tokens : List Token} {entries : List (String × Definition)}
    (each : Separated ReadsEntry tokens entries) (fields : List (String × Definition))
    (outer : List Opened) :
    (field fields outer).after? tokens = some (afterField (fields ++ entries) outer) := by
  induction each generalizing fields with
  | one first => exact first fields outer
  | @more tokens rest entry entries first others ih =>
      rw [after?_append_of_after? (first fields outer), after?_cons_of_moves (.nextField _ _), ih,
        List.append_assoc, List.singleton_append]

theorem after?_nodes {tokens : List Token} {nodes : List Definition}
    (each : Separated ReadsNode tokens nodes) (items : List Definition) (outer : List Opened) :
    (item items outer).after? tokens = some (afterItem (items ++ nodes) outer) := by
  induction each generalizing items with
  | one first => exact first _ _ (.item items outer)
  | @more tokens rest node nodes first others ih =>
      rw [after?_append_of_after? (first _ _ (.item items outer)), finish,
        after?_cons_of_moves (.nextItem _ _), ih, List.append_assoc, List.singleton_append]

theorem readsNode_of_node {tokens : List Token} {definition : Definition}
    (derived : Node tokens definition) : ReadsNode tokens definition := by
  refine @Node.induction ReadsNode ReadsEntry ?type ?emptyMapping ?mapping ?emptySequence ?sequence
    ?keyed tokens definition derived
  case type =>
    intro token text named reading outer awaits
    exact after?_cons_of_moves (.leaf awaits named) []
  case emptyMapping =>
    intro reading outer awaits
    rw [after?_cons_of_moves (.openMapping awaits), after?_cons_of_moves (.noField _ _)]
    rfl
  case mapping =>
    intro tokens comma entries each trailing reading outer awaits
    rw [after?_cons_of_moves (.openMapping awaits), List.append_assoc,
      after?_append_of_after? (after?_entries each [] outer), List.nil_append]
    cases trailing with
    | absent => exact after?_cons_of_moves (.lastField _ _) []
    | present =>
        rw [List.singleton_append, after?_cons_of_moves (.nextField _ _)]
        exact after?_cons_of_moves (.noField _ _) []
  case emptySequence =>
    intro reading outer awaits
    rw [after?_cons_of_moves (.openSequence awaits), after?_cons_of_moves (.noItem _ _)]
    rfl
  case sequence =>
    intro tokens comma nodes each trailing reading outer awaits
    rw [after?_cons_of_moves (.openSequence awaits), List.append_assoc,
      after?_append_of_after? (after?_nodes each [] outer), List.nil_append]
    cases trailing with
    | absent => exact after?_cons_of_moves (.lastItem _ _) []
    | present =>
        rw [List.singleton_append, after?_cons_of_moves (.nextItem _ _)]
        exact after?_cons_of_moves (.noItem _ _) []
  case keyed =>
    intro token name tokens definition named child fields outer
    rw [after?_cons_of_moves (.key fields outer named), after?_cons_of_moves (.value _ _ _)]
    exact child _ _ (.node _)

theorem after?_of_node {tokens : List Token} {definition : Definition}
    (derived : Node tokens definition) :
    (node []).after? tokens = some (complete definition) :=
  readsNode_of_node derived _ _ (.node [])

/-! ## To derivations -/

/-- The tokens that opened these containers and spelled their finished parts. -/
inductive Surrounds : List Opened → List Token → Prop where
  | nil : Surrounds [] []
  | mapping {outer : List Opened} {read tokens : List Token}
      {fields : List (String × Definition)} {token : Token} {name : String}
      (around : Surrounds outer read) (entries : Terminated Entry tokens fields)
      (named : Names token name) :
      Surrounds (.mapping fields name :: outer)
        (read ++ .leftBrace :: (tokens ++ [token, .colon]))
  | sequence {outer : List Opened} {read tokens : List Token} {items : List Definition}
      (around : Surrounds outer read) (nodes : Terminated Node tokens items) :
      Surrounds (.sequence items :: outer) (read ++ .leftBracket :: tokens)

/-- The tokens after which the machine stands there. -/
inductive Reached : Reading → List Token → Prop where
  | node {outer : List Opened} {read : List Token} (around : Surrounds outer read) :
      Reached (node outer) read
  | item {outer : List Opened} {read tokens : List Token} {items : List Definition}
      (around : Surrounds outer read) (nodes : Terminated Node tokens items) :
      Reached (item items outer) (read ++ .leftBracket :: tokens)
  | field {outer : List Opened} {read tokens : List Token} {fields : List (String × Definition)}
      (around : Surrounds outer read) (entries : Terminated Entry tokens fields) :
      Reached (field fields outer) (read ++ .leftBrace :: tokens)
  | colon {outer : List Opened} {read tokens : List Token} {fields : List (String × Definition)}
      {token : Token} {name : String} (around : Surrounds outer read)
      (entries : Terminated Entry tokens fields) (named : Names token name) :
      Reached (colon fields name outer) (read ++ .leftBrace :: (tokens ++ [token]))
  | afterField {outer : List Opened} {read tokens : List Token}
      {fields : List (String × Definition)} (around : Surrounds outer read)
      (entries : Separated Entry tokens fields) :
      Reached (afterField fields outer) (read ++ .leftBrace :: tokens)
  | afterItem {outer : List Opened} {read tokens : List Token} {items : List Definition}
      (around : Surrounds outer read) (nodes : Separated Node tokens items) :
      Reached (afterItem items outer) (read ++ .leftBracket :: tokens)
  | complete {tokens : List Token} {definition : Definition} (derived : Node tokens definition) :
      Reached (complete definition) tokens

theorem Reached.surrounds {reading : Reading} {outer : List Opened} {read : List Token}
    (reached : Reached reading read) (awaits : reading.Awaits outer) : Surrounds outer read := by
  cases awaits with
  | node =>
      cases reached with
      | node around => exact around
  | item =>
      cases reached with
      | item around nodes => exact .sequence around nodes

theorem Surrounds.finish {outer : List Opened} {read tokens : List Token} {definition : Definition}
    (around : Surrounds outer read) (derived : Node tokens definition) :
    Reached (finish definition outer) (read ++ tokens) := by
  cases around with
  | nil => exact .complete derived
  | mapping around entries named =>
      rw [Reading.finish, List.append_assoc, List.cons_append, List.append_assoc]
      exact .afterField around (entries.append (.mk named derived))
  | sequence around nodes =>
      rw [Reading.finish, List.append_assoc, List.cons_append]
      exact .afterItem around (nodes.append derived)

/-- Every move reads one token more. -/
theorem Reached.moves {reading next : Reading} {read : List Token} {token : Token}
    (reached : Reached reading read) (moves : Moves reading token next) :
    Reached next (read ++ [token]) := by
  cases moves with
  | openMapping awaits => exact .field (reached.surrounds awaits) .nil
  | openSequence awaits => exact .item (reached.surrounds awaits) .nil
  | leaf awaits named => exact (reached.surrounds awaits).finish (.type named)
  | noItem items outer =>
      cases reached with
      | item around nodes =>
          rw [List.append_assoc, List.cons_append]
          exact around.finish nodes.sequence
  | noField fields outer =>
      cases reached with
      | field around entries =>
          rw [List.append_assoc, List.cons_append]
          exact around.finish entries.mapping
  | key fields outer named =>
      cases reached with
      | field around entries =>
          rw [List.append_assoc, List.cons_append]
          exact .colon around entries named
  | value fields name outer =>
      cases reached with
      | colon around entries named =>
          rw [List.append_assoc, List.cons_append, List.append_assoc]
          exact .node (.mapping around entries named)
  | nextField fields outer =>
      cases reached with
      | afterField around entries =>
          rw [List.append_assoc, List.cons_append]
          exact .field around (.comma entries)
  | lastField fields outer =>
      cases reached with
      | afterField around entries =>
          rw [List.append_assoc, List.cons_append]
          exact around.finish entries.mapping
  | nextItem items outer =>
      cases reached with
      | afterItem around nodes =>
          rw [List.append_assoc, List.cons_append]
          exact .item around (.comma nodes)
  | lastItem items outer =>
      cases reached with
      | afterItem around nodes =>
          rw [List.append_assoc, List.cons_append]
          exact around.finish nodes.sequence

theorem Reached.after? {reading next : Reading} {read tokens : List Token}
    (reached : Reached reading read) (moved : reading.after? tokens = some next) :
    Reached next (read ++ tokens) := by
  induction tokens generalizing reading read with
  | nil =>
      cases moved
      rwa [List.append_nil]
  | cons token rest ih =>
      rw [after?_cons] at moved
      obtain ⟨between, step, moved⟩ := Option.bind_eq_some_iff.mp moved
      have whole := ih (reached.moves (moves_of_step? step)) moved
      rwa [List.append_assoc, List.singleton_append] at whole

theorem node_of_after? {tokens : List Token} {definition : Definition}
    (read : (node []).after? tokens = some (complete definition)) : Node tokens definition := by
  have reached := Reached.after? (.node .nil) read
  rw [List.nil_append] at reached
  cases reached with
  | complete derived => exact derived

theorem after?_eq_complete_iff {tokens : List Token} {definition : Definition} :
    (node []).after? tokens = some (complete definition) ↔ Node tokens definition :=
  ⟨node_of_after?, after?_of_node⟩

end Reading

end SchemaWire.Notation
