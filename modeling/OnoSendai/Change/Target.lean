import OnoSendai.Value
import OnoSendai.Change.Vocabulary
import OnoSendai.Change.Id

/-!
# Frozen targets, preconditions and proposed effects

A plan names its targets by identity, states the facts that must still hold when it is applied,
and declares the effects each of its actions may have. Each of the three contributes a text to
the digest that seals the plan, in which contributions are separated by the unit separator and
nothing is length-prefixed.
-/

namespace OnoSendai

/-! ### Texts inside a digest -/

/-- Contributions with a unit separator between each two of them. -/
def unitJoin (parts : List String) : String :=
  String.intercalate (String.singleton unitSeparator) parts

/-- Contributions with a unit separator after each of them. -/
def unitTerminated (parts : List String) : String :=
  String.join (parts.map (·.push unitSeparator))

/-- A flag as a digest spells it. -/
def flagText (flag : Bool) : String :=
  if flag then "1" else "0"

/-- The renderings of the standard library and the time library that digest texts use. -/
structure Renderings where
  /-- The debug rendering of a binary floating-point number. -/
  float : UInt64 → String
  /-- The lossy display of a path. -/
  path : List UInt8 → String
  /-- The display of an Internet address. -/
  ip : IpAddr → String
  /-- The display of an instant. -/
  timestamp : Int → String
  /-- The derived debug rendering of a value. -/
  debug : Value → String
  /-- The debug rendering of a span of time. -/
  duration : Nat → String

mutual

/-- The canonical text of a value. -/
def valueText (render : Renderings) : Value → String
  | .null => "null"
  | .bool flag => "bool:" ++ (if flag then "true" else "false")
  | .int number => "int:" ++ toString number
  | .float bits => "float:" ++ render.float bits
  | .string text => "string:" ++ text
  | .path path => "path:" ++ render.path path
  | .port number => "port:" ++ toString number.toNat
  | .ip address => "ip:" ++ render.ip address
  | .timestamp instant => "timestamp:" ++ render.timestamp instant
  | .list items => "list:[" ++ itemsText render items ++ "]"
  | .decimal m s => "decimal:" ++ render.debug (.decimal m s)
  | .bytes b => "bytes:" ++ render.debug (.bytes b)
  | .duration n => "duration:" ++ render.debug (.duration n)
  | .byteSize n => "bytesize:" ++ render.debug (.byteSize n)
  | .percent b => "percent:" ++ render.debug (.percent b)
  | .regex s => "regex:" ++ render.debug (.regex s)
  | .uuid b => "uuid:" ++ render.debug (.uuid b)
  | .ipNetwork a n => "ipnetwork:" ++ render.debug (.ipNetwork a n)
  | .map es => "map:" ++ render.debug (.map es)
  | .record s fs es p => "record:" ++ render.debug (.record s fs es p)
  | .error e cs => "error:" ++ render.debug (.error e cs)

/-- The texts of the items of a list, each followed by a comma. -/
def itemsText (render : Renderings) : List Value → String
  | [] => ""
  | item :: items => valueText render item ++ "," ++ itemsText render items

end

/-! ### Targets -/

/-- One object a plan will act on, frozen at resolution. -/
structure FrozenTarget where
  schema : String
  identity : String
  label : String
  spatialId : Option String
  host : Option String
  selector : Option String
  persistenceDomain : Option String

/-- The text a target contributes to a plan digest. -/
def FrozenTarget.digestText (target : FrozenTarget) : String :=
  unitJoin [target.schema, target.identity, target.host.getD ""]

/-! ### Preconditions -/

/-- What a precondition is about. -/
inductive PreconditionKind
  | existence
  | contentDigest
  | generation
  | version
  | persistenceDomain
  | providerAvailable
  | capability
  | field
deriving DecidableEq

instance : Vocabulary PreconditionKind where
  all := [.existence, .contentDigest, .generation, .version, .persistenceDomain,
    .providerAvailable, .capability, .field]
  asStr
    | .existence => "existence"
    | .contentDigest => "content-digest"
    | .generation => "generation"
    | .version => "version"
    | .persistenceDomain => "persistence-domain"
    | .providerAvailable => "provider-available"
    | .capability => "capability"
    | .field => "field"
  mem_all member := by cases member <;> decide
  spellings_nodup := by decide

/-- One fact that must still hold when the plan is applied. -/
structure Precondition where
  kind : PreconditionKind
  subject : String
  field : String
  expected : Value
  material : Bool
  detail : String

/-- The text a precondition contributes to a plan digest. -/
def Precondition.digestText (render : Renderings) (precondition : Precondition) : String :=
  unitJoin [Vocabulary.asStr precondition.kind, precondition.subject, precondition.field,
    valueText render precondition.expected, flagText precondition.material]

/-- What revalidation found about one precondition. -/
inductive DriftVerdict
  | unchanged
  | tolerated
  | material
  | unknown
deriving DecidableEq

/-- Whether a verdict prevents the plan from proceeding. -/
def DriftVerdict.blocksApply : DriftVerdict → Bool
  | material | unknown => true
  | unchanged | tolerated => false

/-- One precondition and what was seen of it. -/
structure DriftFinding where
  subject : String
  field : String
  kind : PreconditionKind
  verdict : DriftVerdict
  expected : Value
  observed : Option Value

/-! ### Proposed effects -/

/-- How strongly an effect is asserted. -/
inductive EffectConfidence
  | guaranteed
  | expected
  | possible
  | unknown
deriving DecidableEq

instance : Vocabulary EffectConfidence where
  all := [.guaranteed, .expected, .possible, .unknown]
  asStr
    | .guaranteed => "guaranteed"
    | .expected => "expected"
    | .possible => "possible"
    | .unknown => "unknown"
  mem_all member := by cases member <;> decide
  spellings_nodup := by decide

/-- The domain of state an effect lands in. -/
inductive EffectDomain
  | filesystemPersistent
  | blockStoragePersistent
  | applicationPersistent
  | processRuntime
  | kernelRuntime
  | networkRuntime
  | remoteSystem
  | externalSideEffect
  | identitySecurityState
  | providerTransactionState
  | unknown
deriving DecidableEq

instance : Vocabulary EffectDomain where
  all := [.filesystemPersistent, .blockStoragePersistent, .applicationPersistent,
    .processRuntime, .kernelRuntime, .networkRuntime, .remoteSystem, .externalSideEffect,
    .identitySecurityState, .providerTransactionState, .unknown]
  asStr
    | .filesystemPersistent => "filesystem-persistent"
    | .blockStoragePersistent => "block-storage-persistent"
    | .applicationPersistent => "application-persistent"
    | .processRuntime => "process-runtime"
    | .kernelRuntime => "kernel-runtime"
    | .networkRuntime => "network-runtime"
    | .remoteSystem => "remote-system"
    | .externalSideEffect => "external-side-effect"
    | .identitySecurityState => "identity-security-state"
    | .providerTransactionState => "provider-transaction-state"
    | .unknown => "unknown"
  mem_all member := by cases member <;> decide
  spellings_nodup := by decide

/-- Whether a domain holds state that survives a reboot. -/
def EffectDomain.isPersistent : EffectDomain → Bool
  | filesystemPersistent | blockStoragePersistent | applicationPersistent
  | identitySecurityState => true
  | _ => false

/-- What an effect does to its object. -/
inductive EffectKind
  | create
  | modify
  | remove
  | replace
  | interrupt
  | emit
  | unknown
deriving DecidableEq

instance : Vocabulary EffectKind where
  all := [.create, .modify, .remove, .replace, .interrupt, .emit, .unknown]
  asStr
    | .create => "create"
    | .modify => "modify"
    | .remove => "remove"
    | .replace => "replace"
    | .interrupt => "interrupt"
    | .emit => "emit"
    | .unknown => "unknown"
  mem_all member := by cases member <;> decide
  spellings_nodup := by decide

/-- One effect an action may have. -/
structure ProposedEffect where
  id : EffectId
  action : ActionId
  object : Option String
  domain : EffectDomain
  kind : EffectKind
  confidence : EffectConfidence
  before : Option Value
  proposed : Option Value
  evidence : List String
  explanation : String
  irreversible : Bool
  compensation : Option String

/-- The text an effect contributes to a plan digest. -/
def ProposedEffect.digestText (effect : ProposedEffect) : String :=
  unitJoin [effect.id.body, Vocabulary.asStr effect.domain, Vocabulary.asStr effect.kind,
    Vocabulary.asStr effect.confidence, effect.object.getD "", flagText effect.irreversible]

end OnoSendai
