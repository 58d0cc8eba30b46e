import SchemaWire.Codec.Basic
import SchemaWire.Notation.Reading

/-!
# Sessions

A session holds what outlives a single codec: the registered aliases, the defaults for builders
that are made later, the builders made so far and the codecs built so far. A builder takes its
options from the defaults when it is made and looks names up when it builds; later changes to either
reach neither the builder nor the codec.
-/

set_option autoImplicit false

namespace SchemaWire

open Schema (AliasTable AliasError Definition DefinitionError)

inductive SchemaSource where
  | text (content : String)
  | definition (tree : Definition)

def SchemaSource.read : SchemaSource → Except Notation.SyntaxError Definition
  | .text content => Notation.read content
  | .definition tree => .ok tree

/-- A codec in the making: its definition, and its options, which are the defaults of the moment
when the builder was made unless they were set on it. -/
structure Builder where
  definition : Definition
  options : Codec.Options

/-- The codec of a builder. The definition is compiled with the aliases of the moment. -/
def Builder.build (builder : Builder) (aliases : AliasTable) : Except DefinitionError Codec := do
  let plan ← builder.definition.compile aliases
  return ⟨plan, builder.options⟩

/-- What a builder is to be made from. Options that are left out are taken from the defaults. -/
structure Blueprint where
  source : SchemaSource
  encoding? : Option String
  validate? : Option Bool

inductive BuildError where
  | source (e : Notation.SyntaxError)
  | encoding (e : UnsupportedEncoding)
  | definition (e : DefinitionError)

def encodingOr (default : TextEncoding) : Option String → Except UnsupportedEncoding TextEncoding
  | some name => TextEncoding.ofName name
  | none => .ok default

/-- The builder of a blueprint. The source is read first, then the name of the encoding is looked
up. -/
def Blueprint.builder (blueprint : Blueprint) (defaults : Codec.Options) :
    Except BuildError Builder := do
  let definition ← blueprint.source.read.mapError .source
  let encoding ← (encodingOr defaults.encoding blueprint.encoding?).mapError .encoding
  return ⟨definition, encoding, blueprint.validate?.getD defaults.validate⟩

/-- The codec of a blueprint, by a builder that builds at once. -/
def Blueprint.build (blueprint : Blueprint) (aliases : AliasTable) (defaults : Codec.Options) :
    Except BuildError Codec := do
  let builder ← blueprint.builder defaults
  (builder.build aliases).mapError .definition

/-- Aliases, defaults, and builders and codecs by name, the latest first. -/
structure Session where
  aliases : AliasTable
  defaults : Codec.Options
  builders : List (String × Builder)
  codecs : List (String × Codec)

inductive Command where
  | registerAlias (name existing : String)
  | setEncoding (name : String)
  | setValidation (validate : Bool)
  /-- Looks up a type name that is spelled as in the table. -/
  | resolve (name : String)
  | defaults
  | build (id : String) (blueprint : Blueprint)
  /-- Makes a builder and keeps it under a name. -/
  | prepare (name : String) (blueprint : Blueprint)
  /-- Builds the codec of the builder of a name. -/
  | finish (id name : String)
  | encode (id : String) (value : Value)
  | decode (id : String) (bytes : List UInt8)

inductive Answer where
  | done
  | aliasRefused (e : AliasError)
  | encodingRefused (e : UnsupportedEncoding)
  | resolved (type : Option Primitive)
  | defaults (options : Codec.Options)
  | built (codec : Codec)
  | notBuilt (e : BuildError)
  /-- The measured length and the bytes. -/
  | encoded (length : Except Codec.EncodeError Nat) (bytes : Except Codec.EncodeError (List UInt8))
  | decoded (value : Except Wire.DecodeError Value)
  /-- No codec, or no builder, has the name. -/
  | noCodec

namespace Session

def initial : Session := ⟨.initial, ⟨.utf8, false⟩, [], []⟩

/-- Performs a step. A step that is refused changes nothing. A builder stays under its name: that a
program builds with it only once is up to the program. -/
def perform (session : Session) : Command → Answer × Session
  | .registerAlias name existing =>
    match session.aliases.register name existing with
    | .ok aliases => (.done, { session with aliases := aliases })
    | .error e => (.aliasRefused e, session)
  | .setEncoding name =>
    match TextEncoding.ofName name with
    | .ok encoding => (.done, { session with defaults := ⟨encoding, session.defaults.validate⟩ })
    | .error e => (.encodingRefused e, session)
  | .setValidation validate =>
    (.done, { session with defaults := ⟨session.defaults.encoding, validate⟩ })
  | .resolve name => (.resolved (session.aliases.resolve? name), session)
  | .defaults => (.defaults session.defaults, session)
  | .build id blueprint =>
    match blueprint.build session.aliases session.defaults with
    | .ok codec => (.built codec, { session with codecs := (id, codec) :: session.codecs })
    | .error e => (.notBuilt e, session)
  | .prepare name blueprint =>
    match blueprint.builder session.defaults with
    | .ok builder => (.done, { session with builders := (name, builder) :: session.builders })
    | .error e => (.notBuilt e, session)
  | .finish id name =>
    match session.builders.lookup name with
    | some builder =>
      match builder.build session.aliases with
      | .ok codec => (.built codec, { session with codecs := (id, codec) :: session.codecs })
      | .error e => (.notBuilt (.definition e), session)
    | none => (.noCodec, session)
  | .encode id value =>
    match session.codecs.lookup id with
    | some codec => (.encoded (codec.encodedLength value) (codec.encode value), session)
    | none => (.noCodec, session)
  | .decode id bytes =>
    match session.codecs.lookup id with
    | some codec => (.decoded (codec.decode bytes), session)
    | none => (.noCodec, session)

def after (session : Session) : List Command → Session
  | [] => session
  | command :: rest => (session.perform command).2.after rest

end Session

end SchemaWire
