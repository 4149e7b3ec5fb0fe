import OnoSendai.Change.Asset
import OnoSendai.Protection.Mount

/-!
# Recovery providers and protection policy

The providers a plan may ask for protection, what asking all of them finds out, and the policy under
which an offer may be taken. A provider is code of its own: it answers with the functions the
registry calls, and the model takes them as given. The capabilities a provider declares are checked
when it is registered and are left out.

Sizes are in bytes and spans of time in nanoseconds. The sentence that explains a rejected offer is
left out; its reason is kept.
-/

namespace OnoSendai.Protection

/-! ### Providers -/

/-- Whether a provider can run here. -/
inductive ProviderAvailability
  | available (version : String)
  | unavailable (reason : String)
  | unsupported (version reason : String)

namespace ProviderAvailability

/-- Whether the provider can run. -/
def isAvailable : ProviderAvailability → Bool
  | available _ => true
  | _ => false

/-- Why it cannot. -/
def reason : ProviderAvailability → Option String
  | available _ => none
  | unavailable reason | unsupported _ reason => some reason

end ProviderAvailability

/-- A recovery provider, as the coverage analysis asks it. -/
structure RecoveryProvider where
  id : String
  availability : ProviderAvailability
  resolveDomain : String → Except ErrorValue (Option PersistenceDomain)
  discover : PersistenceDomain → RecoveryObjective → Except ErrorValue (List RecoveryCandidate)
  planProtection : List RecoveryCandidate → ProtectionMode →
    Except ErrorValue (List ProtectionAction)

/-- Why one provider contributed nothing. -/
structure ProviderRefusal where
  provider : String
  reason : String
  error : ErrorValue
deriving DecidableEq

/-- What a discovery found, and what it could not ask. -/
structure DiscoveryOutcome where
  candidates : List RecoveryCandidate
  refusals : List ProviderRefusal
  resolutions : List (String × PersistenceDomain)

/-- Whether the outcome establishes that nothing can protect the domain. -/
def DiscoveryOutcome.isConclusive (outcome : DiscoveryOutcome) : Bool :=
  outcome.refusals.isEmpty

/-- The refusal of a provider that cannot run here. -/
def providerUnavailable (provider : String) : ErrorValue where
  code := .recoveryProviderUnavailable
  message := "the " ++ provider ++ " recovery provider cannot run here"

/-- The recovery providers this shell may ask, each under its own name. -/
structure ProviderRegistry where
  providers : List RecoveryProvider
  ids_nodup : (providers.map (·.id)).Nodup

/-- A mount point as a person reads it. -/
def displayPoint (point : String) : String :=
  if trimEndSlashes point = "" then "/" else trimEndSlashes point

/-- Whether two domains were resolved through one mount. -/
def sameMount (left right : PersistenceDomain) : Bool :=
  displayPoint left.mount.mountPoint = displayPoint right.mount.mountPoint

namespace DiscoveryOutcome

/-- The outcome with one more provider that contributed nothing. -/
def refusing (outcome : DiscoveryOutcome) (provider reason : String) (error : ErrorValue) :
    DiscoveryOutcome :=
  { outcome with refusals := outcome.refusals ++ [⟨provider, reason, error⟩] }

/-- The outcome with what a provider discovers in a domain. -/
def discovering (outcome : DiscoveryOutcome) (provider : RecoveryProvider)
    (domain : PersistenceDomain) (objective : RecoveryObjective) : DiscoveryOutcome :=
  if !domain.isProtectable then
    outcome
  else
    match provider.discover domain objective with
    | .ok candidates => { outcome with candidates := outcome.candidates ++ candidates }
    | .error error => outcome.refusing provider.id error.message error

/-- The outcome with the answer of one provider about a path. -/
def asking (path : String) (fallback : Option PersistenceDomain) (objective : RecoveryObjective)
    (outcome : DiscoveryOutcome) (provider : RecoveryProvider) : DiscoveryOutcome :=
  match if startsWith path "/" then provider.resolveDomain path else .ok none with
  | .error error =>
    outcome.refusing provider.id
      ("the persistence domain of " ++ path ++ " could not be established: " ++ error.message) error
  | .ok none =>
    match fallback with
    | none => outcome
    | some fallback => outcome.discovering provider fallback objective
  | .ok (some own) =>
    if own.isProtectable && fallback.any fun fallback => !sameMount own fallback then
      -- the kernel's table decides which filesystem serves the path
      outcome.refusing provider.id
        ("the provider resolved " ++ path ++ " through the mount at " ++
          displayPoint own.mount.mountPoint ++ " while the kernel mount table serves it from " ++
          (fallback.elim "" fun fallback => displayPoint fallback.mount.mountPoint) ++
          ", so its answer describes another filesystem")
        (providerUnavailable provider.id)
    else
      { outcome with resolutions := outcome.resolutions ++ [(provider.id, own)] }.discovering
        provider own objective

end DiscoveryOutcome

namespace ProviderRegistry

/-- A registry without providers. -/
def empty : ProviderRegistry where
  providers := []
  ids_nodup := List.nodup_nil

/-- The provider with an id. -/
def get (registry : ProviderRegistry) (id : String) : Option RecoveryProvider :=
  registry.providers.find? (·.id = id)

/-- The refusals of the providers that cannot run here. -/
def unavailable (registry : ProviderRegistry) : List ProviderRefusal :=
  registry.providers.filterMap fun provider =>
    provider.availability.reason.map fun reason =>
      ⟨provider.id, reason, providerUnavailable provider.id⟩

/-- The providers that can run here. -/
def available (registry : ProviderRegistry) : List RecoveryProvider :=
  registry.providers.filter (·.availability.isAvailable)

/-- Asks every provider that can run here what it could offer for a path, each over the domain it
resolves itself. -/
def discoverAt (registry : ProviderRegistry) (path : String) (fallback : Option PersistenceDomain)
    (objective : RecoveryObjective) : DiscoveryOutcome :=
  let outcome : DiscoveryOutcome := ⟨[], registry.unavailable, []⟩
  if fallback.any fun domain => !domain.isProtectable then
    outcome
  else
    registry.available.foldl (DiscoveryOutcome.asking path fallback objective) outcome

end ProviderRegistry

/-! ### Policy -/

/-- A configured limit an offer exceeds. -/
inductive LimitBreach
  | estimatedSize (estimated limit : Nat)
  | targetScope (objects limit : Nat)
  | quiesceDuration (needed limit : Nat)
  | snapshotCount (limit : Nat)

/-- The configured limits on what protection may cost. -/
structure CostLimits where
  maxEstimatedSize : Option Nat
  maxScopeObjects : Option Nat
  maxQuiesce : Option Nat
  maxSnapshotCount : Option Nat

namespace CostLimits

/-- No limits. -/
def unbounded : CostLimits where
  maxEstimatedSize := none
  maxScopeObjects := none
  maxQuiesce := none
  maxSnapshotCount := none

/-- The limits a value exceeds. -/
def exceeded (limit value : Option Nat) (breach : Nat → Nat → LimitBreach) : List LimitBreach :=
  match limit, value with
  | some limit, some value => if limit < value then [breach value limit] else []
  | _, _ => []

/-- The limits an offer breaks when `planned` assets are proposed already. -/
def breaches (limits : CostLimits) (cost : RecoveryCost) (scopeObjects planned : Nat) :
    List LimitBreach :=
  exceeded limits.maxEstimatedSize cost.initialBytes .estimatedSize ++
  exceeded limits.maxScopeObjects (some scopeObjects) .targetScope ++
  exceeded limits.maxQuiesce cost.quiesce .quiesceDuration ++
  (match limits.maxSnapshotCount with
  | some limit => if limit ≤ planned then [.snapshotCount limit] else []
  | none => [])

end CostLimits

/-- The part of a protection policy the coverage analysis reads. -/
structure ProtectionPolicy where
  mode : ProtectionMode
  limits : CostLimits
  irrelevantDomains : List EffectDomain

/-- Whether the policy declares a domain irrelevant to recovery. -/
def ProtectionPolicy.isIrrelevant (policy : ProtectionPolicy) (domain : EffectDomain) : Bool :=
  policy.irrelevantDomains.any (· = domain)

end OnoSendai.Protection
