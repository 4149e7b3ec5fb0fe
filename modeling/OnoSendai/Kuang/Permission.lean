import OnoSendai.Kuang.Policy
import OnoSendai.Lib.FirstKept

/-!
# Permissions and the delta of an upgrade

What a user grants, projected onto what the broker enforces (`ono_kuang_protocol::permission`): a
permission resolves to capabilities in scopes, a profile is a named set of permissions, and an
upgrade compares the permissions of two versions of a package. The grants a permission mints take
their scopes from its templates (`ono_cli::kuang_permissions::resolve_scope`).
-/

namespace OnoSendai.Kuang

/-! ### Words -/

/-- The kind of a permission. -/
inductive PermissionKind
  | externalObserve
  | externalChange
  | filesystemRead
  | filesystemWrite
  | executeHelper
  | secretUse
  | localContribution
  | modelUse
  | hostObserve
  | hostChange
  | otherSensitive
deriving DecidableEq

/-- When a permission is decided. -/
inductive PermissionPhase
  | automatic
  | install
  | jit
  | explicit
deriving DecidableEq

/-- The risk a permission carries. -/
inductive PermissionRisk
  | local'
  | observe
  | sensitiveRead
  | execute
  | mutate
  | destructive

namespace PermissionPhase

/-- The word of a phase. -/
def id : PermissionPhase → String
  | automatic => "automatic"
  | install => "install"
  | jit => "jit"
  | explicit => "explicit"

/-- The position of a phase. -/
def rank : PermissionPhase → Nat
  | automatic => 0
  | install => 1
  | jit => 2
  | explicit => 3

end PermissionPhase

namespace PermissionRisk

/-- The word of a risk. -/
def id : PermissionRisk → String
  | local' => "local"
  | observe => "observe"
  | sensitiveRead => "sensitive-read"
  | execute => "execute"
  | mutate => "mutate"
  | destructive => "destructive"

/-- The position of a risk, from harmless to destructive. -/
def rank : PermissionRisk → Nat
  | local' => 0
  | observe => 1
  | sensitiveRead => 2
  | execute => 3
  | mutate => 4
  | destructive => 5

end PermissionRisk

/-- Words in backticks, one after another. -/
def words (items : List String) : String :=
  ", ".intercalate (items.map fun item => "`" ++ item ++ "`")

/-! ### The permission layer -/

/-- The scope a grant template names: a concrete record, or a word the host resolves. -/
inductive ScopeTemplate
  | concrete (scope : Members)
  | runtimeDerived
  | packageContributions
  | providerInstance

/-- The word of a template that is not concrete, empty for one that is. -/
def ScopeTemplate.word : ScopeTemplate → String
  | concrete _ => ""
  | runtimeDerived => "runtime-derived"
  | packageContributions => "package-contributions"
  | providerInstance => "provider-instance"

/-- A capability a permission resolves to, with the scope it is granted in. -/
structure GrantTemplate where
  capability : Capability
  scope : Option ScopeTemplate

/-- Whether a capability declares a key the broker only records. -/
def Capability.isAdvisory (capability : Capability) (key : String) : Bool :=
  capability.scopeKeys.any fun declared =>
    declared.name = key && declared.enforcement = .advisory

/-- The weakest enforcement among the scope keys a grant would carry. -/
def GrantTemplate.enforcement (template : GrantTemplate) : Enforcement :=
  match template.scope with
  | some (.concrete scope) =>
    if scope.any fun (key, _) => template.capability.isAdvisory key then .advisory else .broker
  | some .providerInstance => .advisory
  | _ => .broker

/-- A permission a user decides about. -/
structure PermissionDescriptor where
  id : String
  kind : PermissionKind
  title : String
  phase : PermissionPhase
  recommended : Bool
  risk : PermissionRisk
  grants : List GrantTemplate

namespace PermissionDescriptor

/-- The families the permission resolves to, as a sorted set. -/
def capabilities (descriptor : PermissionDescriptor) : List Capability :=
  Capability.all.filter fun capability =>
    descriptor.grants.any fun grant => grant.capability = capability

/-- Whether the permission is included without a question. -/
def isAutomatic (descriptor : PermissionDescriptor) : Bool :=
  descriptor.phase = .automatic

end PermissionDescriptor

/-- A named set of permissions offered as one choice. -/
structure AccessProfile where
  name : String
  permissions : List String

/-- The permission layer of a package. -/
structure PermissionSet where
  descriptors : List PermissionDescriptor
  profiles : List AccessProfile

namespace PermissionSet

/-- The descriptor with an id. -/
def descriptor (set : PermissionSet) (id : String) : Option PermissionDescriptor :=
  set.descriptors.find? fun descriptor => descriptor.id = id

/-- The profile with a name. -/
def profile (set : PermissionSet) (name : String) : Option AccessProfile :=
  set.profiles.find? fun profile => profile.name = name

/-- The just-in-time permission that governs a capability. -/
def jitPermission (set : PermissionSet) (capability : Capability) : Option PermissionDescriptor :=
  set.descriptors.find? fun descriptor =>
    descriptor.grants.any (fun grant => grant.capability = capability) && descriptor.phase = .jit

/-- The descriptors a profile decides, in the order of the profile. -/
def profileDescriptors (set : PermissionSet) (profile : AccessProfile) :
    List PermissionDescriptor :=
  profile.permissions.filterMap set.descriptor

/-- The descriptors included without a question. -/
def automatic (set : PermissionSet) : List PermissionDescriptor :=
  set.descriptors.filter PermissionDescriptor.isAutomatic

/-- The descriptors selected by the profile with a name, and the automatic ones. -/
def selected (set : PermissionSet) (name : String) : List PermissionDescriptor :=
  match set.profile name with
  | some profile => set.profileDescriptors profile ++ set.automatic
  | none => set.automatic

end PermissionSet

/-! ### The delta of an upgrade -/

/-- Why an upgrade needs renewed consent for a permission. -/
inductive DeltaKind
  | added
  | capabilityAdded
  | scopeWidened
  | riskRaised
  | phaseLoosened
  | enforcementWeakened
  | repurposed
deriving DecidableEq

/-- One line of the delta. -/
structure DeltaEntry where
  permission : String
  kind : DeltaKind
  detail : String

/-- The items of a scope value, as text. -/
def listOf (matchers : Matchers) : Json → List String
  | .array items => items.map (itemText matchers)
  | .string text => [text]
  | other => [matchers.display other]

/-- How a key of a written-out scope became broader, where it did. -/
def widenedKey (matchers : Matchers) (new : Members) (key : String) (oldValue : Json) :
    Option String :=
  match new.lookup key with
  | none => some ("`" ++ key ++ "` is no longer bounded")
  | some newValue =>
    let extra := (listOf matchers newValue).filter (· ∉ listOf matchers oldValue)
    if extra.isEmpty then none else some ("`" ++ key ++ "` now covers " ++ words extra)

/-- How a scope became broader, where it did. -/
def widened (matchers : Matchers) : Option ScopeTemplate → Option ScopeTemplate → Option String
  | none, _ => none
  | some _, none => some "no longer bounded by a scope"
  | some (.concrete old), some (.concrete new) =>
    old.findSome? fun (key, oldValue) => widenedKey matchers new key oldValue
  | some (.concrete _), some other =>
    some ("the scope became `" ++ other.word ++ "` rather than the exact values it named")
  | some .packageContributions, some (.concrete scope) =>
    if (scope.lookup "relations").isSome then none
    else some "the scope is now written out rather than bounded to the package"
  | some .providerInstance, some (.concrete _) =>
    some "the scope is now written out rather than bounded to the package"
  | some .runtimeDerived, some (.concrete _) => none
  | some .runtimeDerived, some .runtimeDerived => none
  | some .packageContributions, some .packageContributions => none
  | some .providerInstance, some .providerInstance => none
  | some old, some new =>
    some ("the scope changed from `" ++ old.word ++ "` to `" ++ new.word ++ "`")

/-- What changed in one grant of a permission. -/
def compareGrant (matchers : Matchers) (old new : PermissionDescriptor) (grant : GrantTemplate) :
    List DeltaEntry :=
  match old.grants.find? fun previous => previous.capability = grant.capability with
  | none => []
  | some previous =>
    ((widened matchers previous.scope grant.scope).elim [] fun why =>
      [⟨new.id, .scopeWidened, "+ " ++ new.title ++ " — " ++ why⟩]) ++
    if previous.enforcement = .broker ∧ grant.enforcement = .advisory then
      [⟨new.id, .enforcementWeakened, "~ " ++ new.title ++ " — the " ++ grant.capability.id ++
        " scope is now advisory rather than enforced"⟩]
    else []

/-- What changed in one permission. -/
def compare (matchers : Matchers) (old new : PermissionDescriptor) : List DeltaEntry :=
  if old.kind ≠ new.kind ∨ ¬ old.capabilities ⊆ new.capabilities then
    [⟨new.id, .repurposed, "~ " ++ new.id ++ " now means " ++ new.title ++ " (" ++
      words (new.capabilities.map Capability.id) ++ ")"⟩]
  else
    ((new.capabilities.filter (· ∉ old.capabilities)).map fun capability =>
      ⟨new.id, .capabilityAdded, "+ " ++ new.title ++ " (" ++ capability.id ++ ")"⟩) ++
    new.grants.flatMap (compareGrant matchers old new) ++
    (if old.risk.rank < new.risk.rank then
      [⟨new.id, .riskRaised, "~ " ++ new.title ++ " — risk " ++ old.risk.id ++ " → " ++
        new.risk.id⟩]
    else []) ++
    if new.phase.rank < old.phase.rank ∨ (new.recommended ∧ ¬ old.recommended) then
      [⟨new.id, .phaseLoosened, "~ " ++ new.title ++ " — decided " ++ new.phase.id ++
        " rather than " ++ old.phase.id⟩]
    else []

/-- The line for a permission that is new in what the profile selects. -/
def addedEntry (descriptor : PermissionDescriptor) : DeltaEntry :=
  ⟨descriptor.id, .added, "+ " ++ descriptor.title⟩

/-- The lines for a permission the new version selects. -/
def selectedEntries (matchers : Matchers) (before : PermissionSet) (profile : String)
    (descriptor : PermissionDescriptor) : List DeltaEntry :=
  match before.descriptor descriptor.id with
  | none => [addedEntry descriptor]
  | some old =>
    if descriptor.id ∈ (before.selected profile).map PermissionDescriptor.id then
      compare matchers old descriptor
    else [addedEntry descriptor]

/-- The lines for a permission that stays outside what is selected. -/
def outsideEntries (matchers : Matchers) (before : PermissionSet)
    (descriptor : PermissionDescriptor) : List DeltaEntry :=
  match before.descriptor descriptor.id with
  | none => []
  | some old => (compare matchers old descriptor).filter fun entry => entry.kind = .repurposed

/-- What the new version needs beyond the old one, for the permissions a profile selects. -/
def delta (matchers : Matchers) (before after : PermissionSet) (profile : String) :
    List DeltaEntry :=
  (Keyed.firstKept PermissionDescriptor.id (after.selected profile)).flatMap
    (selectedEntries matchers before profile) ++
  (after.descriptors.filter fun descriptor =>
    descriptor.id ∉ (after.selected profile).map PermissionDescriptor.id).flatMap
    (outsideEntries matchers before)

/-! ### The grants of a decision -/

/-- What of an installed package its grants depend on: its id, and the relation shapes it
contributes. -/
structure Package where
  id : String
  relations : List String

/-- What stands before and after the first arrow. -/
def splitArrow : List Char → Option (List Char × List Char)
  | [] => none
  | '-' :: '>' :: after => some ([], after)
  | character :: rest => (splitArrow rest).map fun (before, after) => (character :: before, after)

/-- The two ends of a contribution shape. -/
def parseShape (shape : String) : Option (String × String) :=
  (splitArrow shape.toList).bind fun (before, after) =>
    let ends := (trim (String.ofList before), trim (String.ofList after))
    if ends.1 ≠ "" ∧ ends.2 ≠ "" then some ends else none

/-- The word a shape endpoint contributes to the id of a relation. -/
def endpointWord (name : String) : String :=
  let withoutVersion := (trim name).toList.takeWhile (· ≠ '/')
  String.ofList ((withoutVersion.reverse.takeWhile (· ≠ '.')).reverse.map Char.toLower)

/-- The id a contributed relation is registered under. -/
def contributedId (package origin target : String) : String :=
  package ++ "." ++ endpointWord origin ++ "_to_" ++ endpointWord target

/-- The relation ids a package declares. -/
def Package.contributions (package : Package) : List Json :=
  (package.relations.filterMap parseShape).map fun (origin, target) =>
    .string (contributedId package.id origin target)

/-- The scope a template resolves to before a decision narrows it. -/
def baseScope (package : Package) : Option ScopeTemplate → Option Members
  | none => none
  | some (.concrete scope) => some scope
  | some .packageContributions => some [("relations", .array package.contributions)]
  | some .runtimeDerived => none
  | some .providerInstance => none

/-- The concrete scope a template resolves to, with the keys a decision names put in place. -/
def resolveScope (package : Package) (template : GrantTemplate) (override : Option Members) :
    Option Members :=
  match baseScope package template.scope, override with
  | base, none => base
  | none, some named => some named
  | some base, some named =>
    some (named.foldl (fun scope (key, value) => Json.insertMember scope key value) base)

/-- The grants a decision about a permission mints. -/
def mint (package : Package) (descriptor : PermissionDescriptor) (override : Option Members) :
    List Grant :=
  descriptor.grants.map fun template =>
    ⟨template.capability, resolveScope package template override, none, some descriptor.id⟩

end OnoSendai.Kuang
