import JobAdmission.Config.Setting
import JobAdmission.Record.Text

/-!
# Configuration

This module holds the configuration of the engine, the conditions on it, and the two
ways to read one: from a JSON text and from environment variables. What is not given
has a default.
-/

namespace JobAdmission

/-- The configuration of the engine. -/
structure Config where
  /-- The fairshare of placeholders. -/
  placeholderFairshare : Binary64
  /-- Jobs of an account with no fairshare are rejected. -/
  rejectZeroFairshare : Bool
  /-- The number of audit events kept in memory. -/
  auditCapacity : UInt64
  deriving DecidableEq, Repr

/-- Why there is no configuration. -/
inductive ConfigError where
  /-- The text is not well-formed. -/
  | syntaxError
  /-- The text is well-formed and goes on after the last field. -/
  | leftOver
  /-- The data is no configuration. -/
  | data (reason : DecodeError)
  /-- The variable of this name has a text that is refused. -/
  | setting (name text : String) (reason : SettingError)
  /-- The fairshare of placeholders is no number between zero and one. -/
  | fairshareOutOfRange
  /-- No audit event would be kept. -/
  | noAuditCapacity
  deriving DecidableEq, Repr

/-- The wording of an error. -/
def ConfigError.message : ConfigError → String
  | .syntaxError => "parse error"
  | .leftOver => "parse error: trailing characters"
  | .data reason => "parse error: " ++ reason.message
  | .setting name text reason => name ++ "=" ++ text ++ ": " ++ reason.message
  | .fairshareOutOfRange => "placeholder_fairshare must be within [0, 1]"
  | .noAuditCapacity => "audit_capacity must be greater than 0"

namespace Config

/-- The configuration when nothing is given: a tenth, yes, and 1024. -/
def default : Config where
  placeholderFairshare := .ofRatio false 1 10
  rejectZeroFairshare := true
  auditCapacity := 1024

instance : Inhabited Config := ⟨default⟩

/-- The configuration, if the conditions on it hold. -/
def validated (c : Config) : Except ConfigError Config :=
  if !c.placeholderFairshare.inUnitInterval then .error .fairshareOutOfRange
  else if c.auditCapacity = 0 then .error .noAuditCapacity
  else .ok c

/-! ### From JSON -/

/-- The fields of a configuration, in declared order. -/
def fields : Fields Config :=
  Config.mk <$> .optional "placeholder_fairshare" default.placeholderFairshare Decoder.float
    <*> .optional "reject_zero_fairshare" default.rejectZeroFairshare Decoder.boolean
    <*> .optional "audit_capacity" default.auditCapacity Decoder.size

/-- What a configuration is called where one was expected. -/
def kind : String := "struct EngineConfig"

/-- Reads a configuration, whose conditions may fail. -/
def decode : Decoder Config := fields.decode kind

/-- The written fields of a configuration, in declared order. -/
def entries (c : Config) : List (String × Json) :=
  [("placeholder_fairshare", .ofFloat c.placeholderFairshare),
   ("reject_zero_fairshare", .boolean c.rejectZeroFairshare),
   ("audit_capacity", .ofUInt64 c.auditCapacity)]

/-- The written form of a configuration. -/
def encode (c : Config) : Json := .ofEntries c.entries

/-- Why a text is refused: that it is not well-formed goes before all else. -/
def textError (text : String) (e : TextError) : ConfigError :=
  match Json.read? text, e with
  | some _, .data reason => .data reason
  | some _, .leftOver => .leftOver
  | _, _ => .syntaxError

/-- The valid configuration that a text holds. -/
def ofText (text : String) : Except ConfigError Config :=
  match fields.readText kind text with
  | .ok c => c.validated
  | .error e => .error (textError text e)

/-! ### From the environment -/

/-- The variable with the fairshare of placeholders. -/
def fairshareVariable : String := "MF_PRIORITY_PLACEHOLDER_FAIRSHARE"

/-- The variable that tells whether jobs without a fairshare are rejected. -/
def rejectVariable : String := "MF_PRIORITY_REJECT_ZERO_FAIRSHARE"

/-- The variable with the number of audit events kept. -/
def capacityVariable : String := "MF_PRIORITY_AUDIT_CAPACITY"

/-- The setting in a variable, or its default if the variable is not set. -/
def settingOf (environment : String → Option String) (name : String) (default : α)
    (read : String → Except SettingError α) : Except ConfigError α :=
  match environment name with
  | none => .ok default
  | some text => (read text).mapError (.setting name text)

/-- The valid configuration that environment variables give. -/
def ofEnvironment (environment : String → Option String) : Except ConfigError Config := do
  let fairshare ←
    settingOf environment fairshareVariable default.placeholderFairshare Setting.float
  let reject ← settingOf environment rejectVariable default.rejectZeroFairshare Setting.boolean
  let capacity ← settingOf environment capacityVariable default.auditCapacity Setting.count
  validated ⟨fairshare, reject, capacity⟩

end Config

end JobAdmission
