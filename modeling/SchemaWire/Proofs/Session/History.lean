import SchemaWire.Proofs.Outcome
import SchemaWire.Proofs.Schema.Alias
import SchemaWire.Proofs.Value.Entries
import SchemaWire.Session

/-!
# The history of a session

What a session holds after a run of commands is said of the commands alone: the last one with an
effect on an alias, a default, a builder or a codec decides, and what it recorded was fixed when it
was performed. Commands that are refused, and later changes of what a command has read, have no
effect. Which commands are refused is said of the names and sources that they are given.
-/

set_option autoImplicit false

namespace SchemaWire

open Outcome
open Schema (AliasTable Definition isReserved)
open Text (normalizeName)

namespace Answer

/-- A command was refused. -/
def IsRefusal : Answer → Prop
  | aliasRefused _ | encodingRefused _ | notBuilt _ => True
  | done | resolved _ | defaults _ | built _ | encoded _ _ | decoded _ | noCodec => False

/-- A command has changed the session. -/
def IsChange : Answer → Prop
  | done | built _ => True
  | aliasRefused _ | encodingRefused _ | notBuilt _ => False
  | resolved _ | defaults _ | encoded _ _ | decoded _ | noCodec => False

end Answer

namespace Session

theorem after_append (session : Session) (first second : List Command) :
    session.after (first ++ second) = (session.after first).after second := by
  induction first generalizing session with
  | nil => rfl
  | cons command first ih => exact ih (session.perform command).2

/-! ## Steps -/

/-- How a command can change a session, with its answer. -/
inductive Change (session : Session) : Command → Answer → Session → Prop where
  | register {given existing : String} {next : AliasTable}
      (accepted : session.aliases.register given existing = .ok next) :
      Change session (.registerAlias given existing) .done { session with aliases := next }
  | setEncoding {name : String} {encoding : TextEncoding}
      (named : TextEncoding.ofName name = .ok encoding) :
      Change session (.setEncoding name) .done
        { session with defaults := ⟨encoding, session.defaults.validate⟩ }
  | setValidation (validate : Bool) :
      Change session (.setValidation validate) .done
        { session with defaults := ⟨session.defaults.encoding, validate⟩ }
  | build {id : String} {blueprint : Blueprint} {codec : Codec}
      (built : blueprint.build session.aliases session.defaults = .ok codec) :
      Change session (.build id blueprint) (.built codec)
        { session with codecs := (id, codec) :: session.codecs }
  | prepare {name : String} {blueprint : Blueprint} {builder : Builder}
      (made : blueprint.builder session.defaults = .ok builder) :
      Change session (.prepare name blueprint) .done
        { session with builders := (name, builder) :: session.builders }
  | finish {id name : String} {builder : Builder} {codec : Codec}
      (held : session.builders.lookup name = some builder)
      (built : builder.build session.aliases = .ok codec) :
      Change session (.finish id name) (.built codec)
        { session with codecs := (id, codec) :: session.codecs }

/-- A step changes the session in one of these ways, or leaves it as it was and does not answer that
it changed. -/
theorem change_or_keep (session : Session) (command : Command) :
    Change session command (session.perform command).1 (session.perform command).2 ∨
      ¬(session.perform command).1.IsChange ∧ (session.perform command).2 = session := by
  cases command with
  | registerAlias given existing =>
      cases outcome : session.aliases.register given existing with
      | ok next =>
          simp only [perform, outcome]
          exact .inl (.register outcome)
      | error e =>
          simp only [perform, outcome]
          exact .inr ⟨id, trivial⟩
  | setEncoding name =>
      cases outcome : TextEncoding.ofName name with
      | ok encoding =>
          simp only [perform, outcome]
          exact .inl (.setEncoding outcome)
      | error e =>
          simp only [perform, outcome]
          exact .inr ⟨id, trivial⟩
  | build name blueprint =>
      cases outcome : blueprint.build session.aliases session.defaults with
      | ok codec =>
          simp only [perform, outcome]
          exact .inl (.build outcome)
      | error e =>
          simp only [perform, outcome]
          exact .inr ⟨id, trivial⟩
  | prepare name blueprint =>
      cases outcome : blueprint.builder session.defaults with
      | ok builder =>
          simp only [perform, outcome]
          exact .inl (.prepare outcome)
      | error e =>
          simp only [perform, outcome]
          exact .inr ⟨id, trivial⟩
  | finish name builderName =>
      cases held : session.builders.lookup builderName with
      | none =>
          simp only [perform, held]
          exact .inr ⟨id, trivial⟩
      | some builder =>
          cases outcome : builder.build session.aliases with
          | ok codec =>
              simp only [perform, held, outcome]
              exact .inl (.finish held outcome)
          | error e =>
              simp only [perform, held, outcome]
              exact .inr ⟨id, trivial⟩
  | encode name value =>
      cases found : session.codecs.lookup name <;> simp only [perform, found] <;>
        exact .inr ⟨id, trivial⟩
  | decode name bytes =>
      cases found : session.codecs.lookup name <;> simp only [perform, found] <;>
        exact .inr ⟨id, trivial⟩
  | setValidation validate => exact .inl (.setValidation validate)
  | resolve | defaults => exact .inr ⟨id, rfl⟩

section

variable {session next : Session} {command : Command} {answer : Answer}

theorem Change.not_isRefusal (change : Change session command answer next) :
    ¬answer.IsRefusal := by
  cases change <;> exact id

/-- A command that is refused leaves the session as it was. -/
theorem perform_of_isRefusal (refused : (session.perform command).1.IsRefusal) :
    (session.perform command).2 = session := by
  rcases change_or_keep session command with change | ⟨-, same⟩
  · exact absurd refused change.not_isRefusal
  · exact same

theorem Change.keysRegistrable (change : Change session command answer next)
    (registrable : session.aliases.KeysRegistrable) : next.aliases.KeysRegistrable := by
  cases change with
  | register accepted => exact registrable.register accepted
  | setEncoding | setValidation | build | prepare | finish => exact registrable

theorem keysRegistrable_after (commands : List Command)
    (registrable : session.aliases.KeysRegistrable) :
    (session.after commands).aliases.KeysRegistrable := by
  induction commands generalizing session with
  | nil => exact registrable
  | cons command rest ih =>
      refine ih ?_
      rcases change_or_keep session command with change | ⟨-, same⟩
      · exact change.keysRegistrable registrable
      · rwa [same]

end

/-! ## The last effect -/

section

variable {α : Type} {effect : Session → Command → Answer → α → Prop} {start value : α}
  {commands : List Command} {command : Command}

/-- No command of a run has an effect. -/
def NoEffect (effect : Session → Command → Answer → α → Prop) (session : Session) :
    List Command → Prop
  | [] => True
  | command :: rest =>
    (∀ value, ¬effect session command (session.perform command).1 value) ∧
      NoEffect effect (session.perform command).2 rest

/-- The value that the last command with an effect gives, or the value at the start if there is no
such command. An effect is said of the session before a command, the command and its answer. -/
inductive Latest (effect : Session → Command → Answer → α → Prop) (start : α) :
    List Command → α → Prop where
  | set {earlier later : List Command} {command : Command} {value : α}
      (effective : effect (initial.after earlier) command
        ((initial.after earlier).perform command).1 value)
      (unaffected : NoEffect effect (initial.after (earlier ++ [command])) later) :
      Latest effect start (earlier ++ command :: later) value
  | never {commands : List Command} (unaffected : NoEffect effect initial commands) :
      Latest effect start commands start

theorem NoEffect.concat {session : Session} (unaffected : NoEffect effect session commands)
    (last : ∀ value, ¬effect (session.after commands) command
      ((session.after commands).perform command).1 value) :
    NoEffect effect session (commands ++ [command]) := by
  induction commands generalizing session with
  | nil => exact ⟨last, trivial⟩
  | cons first rest ih => exact ⟨unaffected.1, ih unaffected.2 last⟩

theorem Latest.concat (latest : Latest effect start commands value)
    (last : ∀ value, ¬effect (initial.after commands) command
      ((initial.after commands).perform command).1 value) :
    Latest effect start (commands ++ [command]) value := by
  cases latest with
  | never unaffected => exact .never (unaffected.concat last)
  | set effective unaffected =>
      rw [List.append_assoc, List.cons_append]
      refine .set effective (unaffected.concat ?_)
      rwa [← after_append, List.append_assoc, List.singleton_append]

/-- Where only changes have an effect, and each change has one on what is viewed, which then shows
its value, or has none and leaves it alone, the view shows the last effect after any run. -/
theorem latest_after (view : Session → α)
    (active : ∀ {session command value}, effect session command (session.perform command).1 value →
      (session.perform command).1.IsChange)
    (each : ∀ {session command answer next}, Change session command answer next →
      effect session command answer (view next) ∨
        (∀ value, ¬effect session command answer value) ∧ view next = view session)
    (commands : List Command) :
    Latest effect (view initial) commands (view (initial.after commands)) := by
  have run : ∀ later earlier, Latest effect (view initial) earlier (view (initial.after earlier)) →
      Latest effect (view initial) (earlier ++ later) (view (initial.after (earlier ++ later))) := by
    intro later
    induction later with
    | nil =>
        intro earlier latest
        rwa [List.append_nil]
    | cons command later ih =>
        intro earlier latest
        have moved : initial.after (earlier ++ [command]) =
            ((initial.after earlier).perform command).2 := after_append _ _ _
        have longer : Latest effect (view initial) (earlier ++ [command])
            (view (initial.after (earlier ++ [command]))) := by
          rw [moved]
          rcases change_or_keep (initial.after earlier) command with change | ⟨passive, same⟩
          · rcases each change with effective | ⟨none, kept⟩
            · exact .set effective trivial
            · rw [kept]
              exact latest.concat none
          · rw [same]
            exact latest.concat fun value effective => passive (active effective)
        have whole := ih _ longer
        rwa [List.append_assoc, List.singleton_append] at whole
  exact run commands [] (.never trivial)

end

/-! ## Effects -/

/-- A command records for a name what another name denotes before it. -/
inductive Registers (name : String) (session : Session) :
    Command → Answer → Option Primitive → Prop where
  | mk {given existing : String} {type : Primitive} (named : normalizeName given = name)
      (denoted : session.aliases.resolve? (normalizeName existing) = some type) :
      Registers name session (.registerAlias given existing) .done (some type)

/-- A command makes an encoding the default. -/
inductive SetsEncoding (session : Session) : Command → Answer → TextEncoding → Prop where
  | mk {name : String} {encoding : TextEncoding} (named : TextEncoding.ofName name = .ok encoding) :
      SetsEncoding session (.setEncoding name) .done encoding

/-- A command turns the guard on or off. -/
inductive SetsValidation (session : Session) : Command → Answer → Bool → Prop where
  | mk (validate : Bool) (answer : Answer) :
      SetsValidation session (.setValidation validate) answer validate

/-- The builder that a blueprint makes, where options that are left open are the defaults. -/
inductive Makes (blueprint : Blueprint) (defaults : Codec.Options) : Builder → Prop where
  | mk {definition : Definition} {encoding : TextEncoding}
      (source : blueprint.source.read = .ok definition)
      (named : encodingOr defaults.encoding blueprint.encoding? = .ok encoding) :
      Makes blueprint defaults ⟨definition, encoding, blueprint.validate?.getD defaults.validate⟩

/-- A command makes a builder with the defaults before it. -/
inductive Prepares (name : String) (session : Session) : Command → Answer → Option Builder → Prop where
  | mk {blueprint : Blueprint} {builder : Builder}
      (made : Makes blueprint session.defaults builder) :
      Prepares name session (.prepare name blueprint) .done (some builder)

/-- The codec of a builder with the aliases of a session. -/
structure BuildsFrom (session : Session) (builder : Builder) (codec : Codec) : Prop where
  compiled : builder.definition.compile session.aliases = .ok codec.plan
  options : codec.options = builder.options

/-- A command stores a codec: that of a builder which it makes itself with the defaults before it,
or of one that was made earlier. The schema is compiled with the aliases before the command. -/
inductive Builds (id : String) (session : Session) : Command → Answer → Option Codec → Prop where
  | build {blueprint : Blueprint} {builder : Builder} {codec : Codec}
      (made : Makes blueprint session.defaults builder) (built : BuildsFrom session builder codec) :
      Builds id session (.build id blueprint) (.built codec) (some codec)
  | finish {name : String} {builder : Builder} {codec : Codec}
      (held : session.builders.lookup name = some builder)
      (built : BuildsFrom session builder codec) :
      Builds id session (.finish id name) (.built codec) (some codec)

theorem builder_eq_ok_iff {blueprint : Blueprint} {defaults : Codec.Options} {builder : Builder} :
    blueprint.builder defaults = .ok builder ↔ Makes blueprint defaults builder := by
  constructor
  · intro made
    obtain ⟨definition, source, made⟩ := bind_eq_ok_iff.mp made
    obtain ⟨encoding, named, same⟩ := bind_eq_ok_iff.mp made
    cases same
    exact .mk (mapError_eq_ok_iff.mp source) (mapError_eq_ok_iff.mp named)
  · intro made
    cases made with
    | mk source named =>
        exact bind_eq_ok_iff.mpr ⟨_, mapError_eq_ok_iff.mpr source,
          bind_eq_ok_iff.mpr ⟨_, mapError_eq_ok_iff.mpr named, rfl⟩⟩

theorem builder_build_eq_ok_iff {session : Session} {builder : Builder} {codec : Codec} :
    builder.build session.aliases = .ok codec ↔ BuildsFrom session builder codec := by
  rw [Builder.build, bind_pure_eq_ok_iff]
  constructor
  · rintro ⟨plan, compiled, rfl⟩
    exact ⟨compiled, rfl⟩
  · intro ⟨compiled, options⟩
    refine ⟨codec.plan, compiled, ?_⟩
    rw [← options]

theorem build_eq_ok_iff {session : Session} {blueprint : Blueprint} {codec : Codec} :
    blueprint.build session.aliases session.defaults = .ok codec ↔
      ∃ builder, Makes blueprint session.defaults builder ∧ BuildsFrom session builder codec := by
  rw [Blueprint.build, bind_eq_ok_iff]
  simp only [builder_eq_ok_iff, mapError_eq_ok_iff, builder_build_eq_ok_iff]

theorem latest_registers (name : String) (commands : List Command) :
    Latest (Registers name) (AliasTable.initial.entries.lookup name) commands
      ((initial.after commands).aliases.entries.lookup name) := by
  refine latest_after (fun session => session.aliases.entries.lookup name) ?active ?each commands
  case active =>
    intro session command value effect
    generalize (session.perform command).1 = answer at effect ⊢
    cases effect
    trivial
  case each =>
    intro session command answer next change
    cases change with
    | @register given existing next accepted =>
        obtain ⟨-, -, -, type, denoted, rfl⟩ := AliasTable.register_eq_ok_iff.mp accepted
        by_cases named : normalizeName given = name
        · left
          rw [← named, lookup_cons_self]
          exact .mk rfl denoted
        · refine .inr ⟨fun value effect => ?_, lookup_cons_of_ne (Ne.symm named) _ _⟩
          cases effect with
          | mk same => exact named same
    | setEncoding | setValidation | build | prepare | finish =>
        exact .inr ⟨fun value => nofun, rfl⟩

theorem latest_setsEncoding (commands : List Command) :
    Latest SetsEncoding .utf8 commands (initial.after commands).defaults.encoding := by
  refine latest_after (fun session => session.defaults.encoding) ?active ?each commands
  case active =>
    intro session command value effect
    generalize (session.perform command).1 = answer at effect ⊢
    cases effect
    trivial
  case each =>
    intro session command answer next change
    cases change with
    | setEncoding named => exact .inl (.mk named)
    | register | setValidation | build | prepare | finish =>
        exact .inr ⟨fun value => nofun, rfl⟩

theorem latest_setsValidation (commands : List Command) :
    Latest SetsValidation false commands (initial.after commands).defaults.validate := by
  refine latest_after (fun session => session.defaults.validate) ?active ?each commands
  case active =>
    -- The effect says nothing of the answer, but this command always answers that it is done.
    intro session command value effect
    generalize answered : (session.perform command).1 = answer at effect ⊢
    cases effect
    cases answered
    trivial
  case each =>
    intro session command answer next change
    cases change with
    | setValidation validate => exact .inl (.mk validate .done)
    | register | setEncoding | build | prepare | finish => exact .inr ⟨fun value => nofun, rfl⟩

theorem latest_prepares (name : String) (commands : List Command) :
    Latest (Prepares name) none commands ((initial.after commands).builders.lookup name) := by
  refine latest_after (fun session => session.builders.lookup name) ?active ?each commands
  case active =>
    intro session command value effect
    generalize (session.perform command).1 = answer at effect ⊢
    cases effect
    trivial
  case each =>
    intro session command answer next change
    cases change with
    | @prepare other blueprint builder made =>
        by_cases named : other = name
        · left
          rw [named, lookup_cons_self]
          exact .mk (builder_eq_ok_iff.mp made)
        · refine .inr ⟨fun value effect => ?_, lookup_cons_of_ne (Ne.symm named) _ _⟩
          cases effect with
          | mk => exact named rfl
    | register | setEncoding | setValidation | build | finish =>
        exact .inr ⟨fun value => nofun, rfl⟩

theorem latest_builds (id : String) (commands : List Command) :
    Latest (Builds id) none commands ((initial.after commands).codecs.lookup id) := by
  refine latest_after (fun session => session.codecs.lookup id) ?active ?each commands
  case active =>
    intro session command value effect
    generalize (session.perform command).1 = answer at effect ⊢
    cases effect <;> trivial
  case each =>
    intro session command answer next change
    cases change with
    | @build other blueprint codec built =>
        by_cases named : other = id
        · left
          obtain ⟨builder, made, built⟩ := build_eq_ok_iff.mp built
          rw [named, lookup_cons_self]
          exact .build made built
        · refine .inr ⟨fun value effect => ?_, lookup_cons_of_ne (Ne.symm named) _ _⟩
          cases effect with
          | build => exact named rfl
    | @finish other name builder codec held built =>
        by_cases named : other = id
        · left
          rw [named, lookup_cons_self]
          exact .finish held (builder_build_eq_ok_iff.mp built)
        · refine .inr ⟨fun value effect => ?_, lookup_cons_of_ne (Ne.symm named) _ _⟩
          cases effect with
          | finish => exact named rfl
    | register | setEncoding | setValidation | prepare => exact .inr ⟨fun value => nofun, rfl⟩

/-! ## What a session answers -/

/-- The commands that change a session, what they need, and what is answered to them. -/
inductive Accepts (session : Session) : Command → Answer → Prop where
  | registerAlias {given existing : String} {type : Primitive}
      (plain : isReserved (normalizeName given) = false)
      (plainTarget : isReserved (normalizeName existing) = false)
      (other : Primitive.ofName? (normalizeName given) = none)
      (denoted : session.aliases.resolve? (normalizeName existing) = some type) :
      Accepts session (.registerAlias given existing) .done
  | setEncoding {name : String} {encoding : TextEncoding}
      (named : TextEncoding.ofName name = .ok encoding) :
      Accepts session (.setEncoding name) .done
  | setValidation (validate : Bool) : Accepts session (.setValidation validate) .done
  | build {id : String} {blueprint : Blueprint} {builder : Builder} {codec : Codec}
      (made : Makes blueprint session.defaults builder) (built : BuildsFrom session builder codec) :
      Accepts session (.build id blueprint) (.built codec)
  | prepare {name : String} {blueprint : Blueprint} {builder : Builder}
      (made : Makes blueprint session.defaults builder) :
      Accepts session (.prepare name blueprint) .done
  | finish {id name : String} {builder : Builder} {codec : Codec}
      (held : session.builders.lookup name = some builder)
      (built : BuildsFrom session builder codec) : Accepts session (.finish id name) (.built codec)

section

variable {session next : Session} {command : Command} {answer : Answer}

theorem Change.accepts (change : Change session command answer next) :
    session.Accepts command answer := by
  cases change with
  | register accepted =>
      obtain ⟨plain, plainTarget, other, type, denoted, -⟩ :=
        AliasTable.register_eq_ok_iff.mp accepted
      exact .registerAlias plain plainTarget other denoted
  | setEncoding named => exact .setEncoding named
  | setValidation validate => exact .setValidation validate
  | build built =>
      obtain ⟨builder, made, built⟩ := build_eq_ok_iff.mp built
      exact .build made built
  | prepare made => exact .prepare (builder_eq_ok_iff.mp made)
  | finish held built => exact .finish held (builder_build_eq_ok_iff.mp built)

theorem Accepts.perform_eq (accepts : session.Accepts command answer) :
    (session.perform command).1 = answer ∧ answer.IsChange := by
  cases accepts with
  | registerAlias plain plainTarget other denoted =>
      have accepted := AliasTable.register_eq_ok_iff.mpr
        ⟨plain, plainTarget, other, _, denoted, rfl⟩
      exact ⟨by simp only [perform, accepted], trivial⟩
  | setEncoding named =>
      exact ⟨by simp only [perform, named], trivial⟩
  | setValidation validate => exact ⟨rfl, trivial⟩
  | build made built =>
      exact ⟨by simp only [perform, build_eq_ok_iff.mpr ⟨_, made, built⟩], trivial⟩
  | prepare made =>
      exact ⟨by simp only [perform, builder_eq_ok_iff.mpr made], trivial⟩
  | finish held built =>
      exact ⟨by simp only [perform, held, builder_build_eq_ok_iff.mpr built], trivial⟩

/-- A command is answered as changing the session exactly if it has all that it needs. -/
theorem perform_eq_change_iff :
    ((session.perform command).1 = answer ∧ answer.IsChange) ↔ session.Accepts command answer := by
  constructor
  · rintro ⟨rfl, changed⟩
    rcases change_or_keep session command with change | ⟨passive, -⟩
    · exact change.accepts
    · exact absurd changed passive
  · exact Accepts.perform_eq

end

/-- What is answered to a value where a name stands for a codec, or for none. -/
def encodingAnswer (value : Value) : Option Codec → Answer
  | some codec => .encoded (codec.encodedLength value) (codec.encode value)
  | none => .noCodec

/-- What is answered to bytes where a name stands for a codec, or for none. -/
def decodingAnswer (bytes : List UInt8) : Option Codec → Answer
  | some codec => .decoded (codec.decode bytes)
  | none => .noCodec

theorem perform_encode (session : Session) (id : String) (value : Value) :
    (session.perform (.encode id value)).1 = encodingAnswer value (session.codecs.lookup id) := by
  cases found : session.codecs.lookup id <;> simp only [perform, found, encodingAnswer]

theorem perform_decode (session : Session) (id : String) (bytes : List UInt8) :
    (session.perform (.decode id bytes)).1 = decodingAnswer bytes (session.codecs.lookup id) := by
  cases found : session.codecs.lookup id <;> simp only [perform, found, decodingAnswer]

/-- What is said of a session by its history. Aliases, defaults, builders and codecs are those of
the last command that set them, as they were when it was performed. A command is refused only if
something that it needs is missing, and then it changes nothing. -/
theorem session_by_history (commands : List Command) :
    (∀ key ∈ (initial.after commands).aliases.entries.map Prod.fst,
      Text.Normalized key ∧ Primitive.ofName? key = none ∧ isReserved key = false) ∧
    (∀ name, isReserved name = true → (initial.after commands).aliases.resolve? name = none) ∧
    (∀ type : Primitive, (initial.after commands).aliases.resolve? type.name = some type) ∧
    (∀ name, isReserved name = false → Primitive.ofName? name = none →
      Latest (Registers name) (if name = "bool" then some .boolean else none) commands
        ((initial.after commands).aliases.resolve? name)) ∧
    (∀ command, ((initial.after commands).perform command).1.IsRefusal →
      ((initial.after commands).perform command).2 = initial.after commands) ∧
    (∀ id, ∃ codec?, Latest (Builds id) none commands codec? ∧
      (∀ value, ((initial.after commands).perform (.encode id value)).1 =
        encodingAnswer value codec?) ∧
      ∀ bytes, ((initial.after commands).perform (.decode id bytes)).1 =
        decodingAnswer bytes codec?) ∧
    Latest SetsEncoding .utf8 commands (initial.after commands).defaults.encoding ∧
    Latest SetsValidation false commands (initial.after commands).defaults.validate ∧
    (∀ name, Latest (Prepares name) none commands
      ((initial.after commands).builders.lookup name)) ∧
    (∀ command answer,
      (((initial.after commands).perform command).1 = answer ∧ answer.IsChange) ↔
        (initial.after commands).Accepts command answer) ∧
    (∀ name, ((initial.after commands).perform (.resolve name)).1 =
      .resolved ((initial.after commands).aliases.resolve? name)) ∧
    ((initial.after commands).perform .defaults).1 =
      .defaults (initial.after commands).defaults := by
  refine ⟨keysRegistrable_after commands AliasTable.keysRegistrable_initial,
    fun name reserved => AliasTable.resolve?_of_reserved reserved, AliasTable.resolve?_name,
    ?registered, fun command => perform_of_isRefusal, ?stored,
    latest_setsEncoding commands, latest_setsValidation commands,
    fun name => latest_prepares name commands, fun command answer => perform_eq_change_iff,
    fun name => rfl, rfl⟩
  case registered =>
    intro name plain other
    have start : AliasTable.initial.entries.lookup name =
        if name = "bool" then some .boolean else none := by
      by_cases same : name = "bool"
      · rw [if_pos same, same]
        rfl
      · rw [if_neg same, AliasTable.initial, lookup_cons_of_ne same]
        rfl
    rw [AliasTable.resolve?_eq_lookup plain other, ← start]
    exact latest_registers name commands
  case stored =>
    intro id
    exact ⟨_, latest_builds id commands, fun value => perform_encode _ id value,
      fun bytes => perform_decode _ id bytes⟩

/-- An alias of an alias keeps its target when the name in between is registered anew. A builder
that is held meanwhile has the options of before and the aliases of after, and the codec of another
command keeps both. -/
theorem session_by_history_chain :
    let commands : List Command := [.registerAlias " Flag" "bool", .registerAlias "switch" "FLAG",
      .setEncoding "hex", .setValidation true,
      .build "pair" ⟨.definition (.mapping [("on", .type "Switch"), ("id", .type "string")]), none,
        some false⟩,
      .prepare "later" ⟨.definition (.type "flag"), none, none⟩, .registerAlias "flag" "uint8",
      .setEncoding "utf-7", .setEncoding "ascii", .setValidation false, .finish "word" "later"]
    let session := initial.after commands
    session.aliases.resolve? "switch" = some .boolean ∧
      Latest (Registers "switch") none commands (some .boolean) ∧
      session.defaults = ⟨.ascii, false⟩ ∧ Latest SetsEncoding .utf8 commands .ascii ∧
      Latest SetsValidation false commands false ∧
      (session.perform (.setEncoding "utf-7")).1.IsRefusal ∧
      (session.perform (.setEncoding "utf-7")).2 = session ∧
      (session.perform (.encode "pair" (.mapping [("id", .text "0AFF"), ("on", .integer 2)]))).1 =
        .encoded (.ok 4) (.ok [2, 0x0a, 0xff, 1]) ∧
      ∃ codec?, Latest (Builds "word") none commands codec? ∧
        encodingAnswer (.integer 300) codec? =
          .encoded (.error (.outOfRange [] .uint8 (.integer 300)))
            (.error (.outOfRange [] .uint8 (.integer 300))) := by
  intro commands session
  have resolved : session.aliases.resolve? "switch" = some .boolean := by decide +kernel
  have refused : (session.perform (.setEncoding "utf-7")).1.IsRefusal := trivial
  have pair : (session.perform
      (.encode "pair" (.mapping [("id", .text "0AFF"), ("on", .integer 2)]))).1 =
        .encoded (.ok 4) (.ok [2, 0x0a, 0xff, 1]) := rfl
  have word : (session.perform (.encode "word" (.integer 300))).1 =
      .encoded (.error (.outOfRange [] .uint8 (.integer 300)))
        (.error (.outOfRange [] .uint8 (.integer 300))) := rfl
  obtain ⟨-, -, -, registered, unchanged, built, encoding, validate, -⟩ :=
    session_by_history commands
  have recorded := registered "switch" (by decide) (by decide)
  rw [resolved, if_neg (by decide)] at recorded
  obtain ⟨codec?, latest, answers, -⟩ := built "word"
  exact ⟨resolved, recorded, rfl, encoding, validate, refused, unchanged _ refused, pair, codec?,
    latest, (answers (.integer 300)).symm.trans word⟩

end Session

end SchemaWire
