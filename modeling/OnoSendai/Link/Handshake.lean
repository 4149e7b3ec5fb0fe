import OnoSendai.Link.Wire

/-!
# The handshake of a link

A caller opens a link with a `Hello` and is answered with an `Accept` or a `Reject`. What the
agent offers is narrowed to what the caller asked for; a caller that names no provider and no
capability is asking for everything on offer.

The name of the agent, its operating system and its architecture are facts of the build, and come
in as a parameter.
-/

namespace OnoSendai.Link

/-! ### What is announced -/

/-- How dangerous a capability is. -/
inductive Risk
  | read
  | observe
  | mutate
  | destructive
deriving DecidableEq

/-- A capability as an agent announces it: its risk is a claim, carried as text. -/
structure CapabilityDescriptor where
  id : String
  risk : String
  elevation : Bool

/-- The risk of a capability. A claim this build cannot understand is the worst one. -/
def CapabilityDescriptor.riskClass (capability : CapabilityDescriptor) : Risk :=
  if capability.risk = "read" then .read
  else if capability.risk = "observe" then .observe
  else if capability.risk = "mutate" then .mutate
  else .destructive

/-- What a provider knows about the past. -/
structure TemporalDescriptor where
  currentSnapshot : Bool
  liveEvents : Bool
  historicalQuery : Bool
  exhaustiveEvents : Bool
  causalTokens : Bool
  checkpointable : Bool
  retainedHistoryNanos : Option Int

/-- A provider as an agent announces it, and why it cannot answer, if it cannot. -/
structure ProviderDescriptor where
  id : String
  targets : List String
  capabilities : List CapabilityDescriptor
  unavailable : Option String
  temporal : Option TemporalDescriptor

/-- A provider with these capabilities and no others. -/
def ProviderDescriptor.withExactCapabilities (provider : ProviderDescriptor)
    (capabilities : List CapabilityDescriptor) : ProviderDescriptor :=
  { provider with capabilities }

/-- Who an end of a link runs as. -/
structure Identity where
  user : String
  uid : Option UInt32
  elevated : Bool

/-- The clock an end of a link says it reads. -/
structure PeerClock where
  clockId : String
  bootId : Option String
  reading : Option String
  uncertaintyNanos : Option Int

/-! ### The messages -/

/-- The opening offer of a caller. -/
structure Hello where
  versions : List UInt16
  agent : String
  os : String
  arch : String
  providers : List String
  schemas : List String
  capabilities : List String
  compression : List String
  pty : Bool
  identity : Identity
  creditWindow : UInt32
  clock : Option PeerClock

/-- The answer that establishes a link. -/
structure Accept where
  version : UInt16
  agent : String
  os : String
  arch : String
  providers : List ProviderDescriptor
  schemas : List String
  capabilities : List String
  compression : Option String
  pty : Bool
  identity : Identity
  creditWindow : Nat
  clock : Option PeerClock

/-- The answer that refuses a link: the name of a code, and the reason. -/
structure Reject where
  code : String
  message : String

/-- What an agent negotiates with. -/
structure Offer where
  versions : List UInt16
  providers : List ProviderDescriptor
  schemas : List String
  capabilities : List String
  compression : List String
  identity : Identity
  pty : Bool
  limits : Limits
  clock : Option PeerClock

/-- What the build says about itself. -/
structure Build where
  agentName : String
  os : String
  arch : String

/-! ### The negotiation -/

/-- The largest version both sides speak. -/
def sharedVersion (theirs ours : List UInt16) : Option UInt16 :=
  (ours.filter (· ∈ theirs)).max?

/-- A list of versions as the refusal spells it. -/
def debugVersions (versions : List UInt16) : String :=
  "[" ++ ", ".intercalate (versions.map fun version => toString version.toNat) ++ "]"

/-- The refusal of a caller that shares no version. -/
def versionMismatch (theirs ours : List UInt16) : Reject where
  code := "remote.protocol_mismatch"
  message := "no shared link protocol version: the caller speaks " ++ debugVersions theirs ++
    ", this agent speaks " ++ debugVersions ours

/-- The answer to a `Hello`. -/
def negotiate (build : Build) (hello : Hello) (offer : Offer) : Except Reject Accept :=
  match sharedVersion hello.versions offer.versions with
  | none => .error (versionMismatch hello.versions offer.versions)
  | some version => .ok
      { version
        agent := build.agentName
        os := build.os
        arch := build.arch
        providers := offer.providers.filter fun provider =>
          hello.providers.isEmpty || hello.providers.any (· == provider.id)
        schemas := offer.schemas
        capabilities :=
          if hello.capabilities.isEmpty then offer.capabilities
          else hello.capabilities.filter (· ∈ offer.capabilities)
        compression := hello.compression.find? (· ∈ offer.compression)
        pty := offer.pty
        identity := offer.identity
        clock := offer.clock
        creditWindow := clamp 1 (max offer.limits.maxCredit 1) hello.creditWindow.toNat }

section Negotiate

variable {build : Build} {hello : Hello} {offer : Offer} {accept : Accept}

/-- Every provider of an `Accept` was on offer. -/
theorem mem_providers_of_negotiate (h : negotiate build hello offer = .ok accept)
    {provider : ProviderDescriptor} (hmem : provider ∈ accept.providers) :
    provider ∈ offer.providers := by
  unfold negotiate at h
  split at h
  · exact absurd h (by simp)
  · obtain rfl := Except.ok.inj h
    exact List.mem_of_mem_filter hmem

theorem mem_capabilities_of_negotiate (h : negotiate build hello offer = .ok accept)
    {id : String} (hmem : id ∈ accept.capabilities) : id ∈ offer.capabilities := by
  unfold negotiate at h
  split at h
  · exact absurd h (by simp)
  · obtain rfl := Except.ok.inj h
    by_cases hempty : hello.capabilities.isEmpty = true
    · rwa [if_pos hempty] at hmem
    · rw [if_neg hempty, List.mem_filter] at hmem
      exact of_decide_eq_true hmem.2

end Negotiate

end OnoSendai.Link
