import Mathlib.Data.List.Basic
import OnoSendai.Link.Handshake

/-!
# Who an agent lets in

The policy of a listening agent: which client keys it serves, whether each may observe, and which
exact capabilities it may use. A connection gets its policy once, from the key the transport
proved, and both the offer of the handshake and every request are judged by it.
-/

namespace OnoSendai.Link

/-! ### Keys -/

/-- The hash a fingerprint is made with. -/
abbrev KeyHash : Type :=
  List UInt8 → Vector UInt8 32

/-- The fingerprint of a key: the whole digest. -/
structure Fingerprint where
  digest : Vector UInt8 32
deriving DecidableEq

/-- A fingerprint as text. -/
def Fingerprint.text (fingerprint : Fingerprint) : String :=
  "sha256:" ++ hexText fingerprint.digest.toList

/-- A key a transport verified. -/
structure HostKey where
  algorithm : String
  material : List UInt8

/-- The fingerprint of a key. The name of the algorithm is hashed along with the material. -/
def HostKey.fingerprint (hash : KeyHash) (key : HostKey) : Fingerprint where
  digest := hash (key.algorithm.toUTF8.toList ++ 0 :: key.material)

/-! ### The store -/

/-- Whether a character may stand in a segment of a capability identifier. -/
def isCapabilityChar (c : Char) : Bool :=
  ('a' ≤ c && c ≤ 'z') || ('0' ≤ c && c ≤ '9') || c == '-'

/-- Whether a text is an exact capability identifier: at least two segments, none empty. -/
def isCapabilityId (text : String) : Bool :=
  let segments := text.toList.splitOn '.'
  2 ≤ segments.length &&
    segments.all fun segment => !segment.isEmpty && segment.all isCapabilityChar

/-- The grant of one exact capability. -/
structure ActionGrant where
  id : String
  wellFormed : isCapabilityId id = true

/-- One line of the store. -/
structure AuthorizedClient where
  fingerprint : Fingerprint
  label : Option String
  observe : Bool
  actions : List ActionGrant

/-- The store of a listening agent, and whether there was a file to read it from. -/
structure AuthorizedClients where
  entries : List AuthorizedClient
  present : Bool

/-- What a connection may do, fixed for its whole life. -/
structure AuthorizationContext where
  peerFingerprint : Fingerprint
  clientLabel : Option String
  observeAllowed : Bool
  allowedActionCapabilities : List ActionGrant

/-- The policy an entry stands for. -/
def AuthorizationContext.of (entry : AuthorizedClient) : AuthorizationContext where
  peerFingerprint := entry.fingerprint
  clientLabel := entry.label
  observeAllowed := entry.observe
  allowedActionCapabilities := entry.actions

/-- Whether a capability is one of the exact identifiers granted. -/
def AuthorizationContext.allowsAction (context : AuthorizationContext) (capability : String) :
    Bool :=
  context.allowedActionCapabilities.any fun grant => grant.id == capability

namespace AuthorizedClients

/-- The entry of a fingerprint. -/
def client (store : AuthorizedClients) (fingerprint : Fingerprint) : Option AuthorizedClient :=
  store.entries.find? fun entry => decide (entry.fingerprint = fingerprint)

/-- The refusal of a client that is not listed. -/
def unlisted (store : AuthorizedClients) (fingerprint : Fingerprint) : ErrorValue where
  code := .other "remote.unauthorized"
  message := "the client " ++ fingerprint.text ++ " " ++
    (if store.present then "is authenticated and is not authorized on this host"
    else "is authenticated and is not authorized on this host, where no client is authorized yet")

/-- The policy of a listed client. -/
def authorize (store : AuthorizedClients) (fingerprint : Fingerprint) :
    Except ErrorValue AuthorizationContext :=
  match store.client fingerprint with
  | some entry => .ok (.of entry)
  | none => .error (store.unlisted fingerprint)

end AuthorizedClients

/-- The refusal of a client that proved no key. -/
def unauthenticatedRefusal : ErrorValue where
  code := .other "remote.unauthenticated"
  message := "the client proved possession of no key, so there is no identity to authorize"

/-! ### The policy of a connection -/

/-- The policy of a connection: the carrier authorized the caller, or a store did. -/
inductive PeerAuthorization
  | carriedByTransport
  | policy (context : AuthorizationContext)

namespace PeerAuthorization

/-- Whether the peer may query and subscribe. -/
def allowsObserve : PeerAuthorization → Bool
  | carriedByTransport => true
  | policy context => context.observeAllowed

/-- Whether the peer may use a capability. -/
def allowsAction (peer : PeerAuthorization) (capability : String) : Bool :=
  match peer with
  | carriedByTransport => true
  | policy context => context.allowsAction capability

/-- How a refusal speaks of the peer. -/
def subject : PeerAuthorization → String
  | carriedByTransport => "this client"
  | policy context => "remote client " ++ context.peerFingerprint.text

/-- The refusal of a request. -/
def denial (peer : PeerAuthorization) (message : String → String) : ErrorValue where
  code := .other "remote.capability_denied"
  message := message peer.subject

/-- Requires that the peer may observe. -/
def requireObserve (peer : PeerAuthorization) (what : String) : Except ErrorValue Unit :=
  if peer.allowsObserve then .ok ()
  else .error <| peer.denial fun who =>
    who ++ " is authenticated but not authorized to observe, so `" ++ what ++ "` is refused"

/-- Requires that the peer may use a capability. One that has no name is never granted. -/
def requireAction (peer : PeerAuthorization) (capability : Option String) (what : String) :
    Except ErrorValue Unit :=
  match capability with
  | none => .error <| peer.denial fun who =>
      who ++ " is authenticated, and `" ++ what ++
        "` needs a capability this agent cannot name; an unnamed capability is never granted"
  | some capability =>
    if peer.allowsAction capability then .ok ()
    else .error <| peer.denial fun who =>
      who ++ " is authenticated but not authorized for `" ++ capability ++ "`, so `" ++ what ++
        "` is refused"

/-- Who passes the check of an observation. -/
theorem requireObserve_eq_ok_iff (peer : PeerAuthorization) (what : String) :
    peer.requireObserve what = .ok () ↔ peer.allowsObserve = true := by
  unfold requireObserve
  split_ifs with h <;> simp [h]

/-- Who passes the check of an action: the capability has a name, and it is granted. -/
theorem requireAction_eq_ok_iff (peer : PeerAuthorization) (capability : Option String)
    (what : String) :
    peer.requireAction capability what = .ok () ↔
      ∃ id, capability = some id ∧ peer.allowsAction id = true := by
  cases capability with
  | none => simp [requireAction]
  | some id =>
    simp only [requireAction]
    split_ifs with h <;> simp [h]

end PeerAuthorization

/-! ### The agent -/

/-- Who decides which clients an agent serves. -/
inductive ServerAuthorization
  | carriedByTransport
  | store (clients : AuthorizedClients)

/-- What an agent announces and enforces. Schemas are given by their identifiers; the declared
capability of an action is looked up by target and operation. -/
structure ServerConfig where
  versions : List UInt16
  providers : List ProviderDescriptor
  capabilities : List String
  compression : List String
  identity : Identity
  schemas : List String
  limits : Limits
  pty : Bool
  authorization : ServerAuthorization
  actionCapabilities : List ((String × String) × String)
  clock : Option PeerClock

/-- Whether one declared capability is inside what this peer may use. One that needs elevation
requires an exact grant even when its risk reads as a plain read. -/
def permits (peer : PeerAuthorization) (capability : CapabilityDescriptor) : Bool :=
  let observation := capability.riskClass = .read ∨ capability.riskClass = .observe
  if observation ∧ capability.elevation = false then peer.allowsObserve
  else peer.allowsAction capability.id

namespace ServerConfig

/-- The capability an action on a target needs, where one is declared. -/
def actionCapability (config : ServerConfig) (target operation : String) : Option String :=
  config.actionCapabilities.lookup (target, operation)

/-- What is left of a provider for a peer under a policy. One that declared capabilities and kept
none is withheld whole. -/
def providerFor (peer : PeerAuthorization) (provider : ProviderDescriptor) :
    Option ProviderDescriptor :=
  let kept := provider.capabilities.filter (permits peer)
  if 0 < provider.capabilities.length ∧ kept.isEmpty then none
  else some (provider.withExactCapabilities kept)

/-- The providers a peer gets to see. -/
def providersFor (config : ServerConfig) (peer : PeerAuthorization) : List ProviderDescriptor :=
  match peer with
  | .carriedByTransport => config.providers
  | .policy _ => config.providers.filterMap (providerFor peer)

/-- The offer a peer is negotiated with. A bare name in the agent-wide list survives only when a
provider that survived still declares it. -/
def offerFor (config : ServerConfig) (peer : PeerAuthorization) : Offer :=
  let providers := config.providersFor peer
  let offered := providers.flatMap fun provider => provider.capabilities.map (·.id)
  { versions := config.versions
    providers
    schemas := config.schemas
    capabilities :=
      match peer with
      | .carriedByTransport => config.capabilities
      | .policy _ => config.capabilities.filter (· ∈ offered)
    compression := config.compression
    identity := config.identity
    pty := config.pty
    limits := config.limits
    clock := config.clock }

variable {config : ServerConfig} {context : AuthorizationContext}

/-- Every capability of an offered provider is permitted. -/
theorem permits_of_mem_offerFor {provider : ProviderDescriptor}
    (hprovider : provider ∈ (config.offerFor (.policy context)).providers)
    {capability : CapabilityDescriptor} (hcapability : capability ∈ provider.capabilities) :
    permits (.policy context) capability = true := by
  obtain ⟨declared, -, hkept⟩ := List.mem_filterMap.1 hprovider
  simp only [providerFor] at hkept
  split_ifs at hkept
  obtain rfl := Option.some.inj hkept
  exact (List.mem_filter.1 hcapability).2

/-- Every name in the agent-wide list of an offer is declared by a provider of the agent, as a
capability that is permitted. -/
theorem exists_permits_of_mem_offerFor {id : String}
    (h : id ∈ (config.offerFor (.policy context)).capabilities) :
    ∃ provider ∈ config.providers, ∃ capability ∈ provider.capabilities,
      capability.id = id ∧ permits (.policy context) capability = true := by
  obtain ⟨-, hoffered⟩ := List.mem_filter.1 h
  obtain ⟨provider, hprovider, hmem⟩ := List.mem_flatMap.1 (of_decide_eq_true hoffered)
  obtain ⟨capability, hcapability, rfl⟩ := List.mem_map.1 hmem
  have hpermits := permits_of_mem_offerFor hprovider hcapability
  obtain ⟨declared, hdeclared, hkept⟩ := List.mem_filterMap.1 hprovider
  simp only [providerFor] at hkept
  split_ifs at hkept
  obtain rfl := Option.some.inj hkept
  exact ⟨declared, hdeclared, capability, List.mem_of_mem_filter hcapability, rfl, hpermits⟩

end ServerConfig

/-! ### Resolution -/

/-- Decides what a connection may do, once, from what the transport proved. -/
def resolve (hash : KeyHash) (authorization : ServerAuthorization) (peerKey : Option HostKey) :
    Except ErrorValue PeerAuthorization :=
  match authorization with
  | .carriedByTransport => .ok .carriedByTransport
  | .store store =>
    match peerKey with
    | none => .error unauthenticatedRefusal
    | some key => (store.authorize (key.fingerprint hash)).map .policy

/-- The entry of the key a transport proved. -/
def AuthorizedClients.listed (hash : KeyHash) (store : AuthorizedClients)
    (peerKey : Option HostKey) : Option AuthorizedClient :=
  peerKey.bind fun key => store.client (key.fingerprint hash)

variable {hash : KeyHash} {store : AuthorizedClients} {peerKey : Option HostKey}

/-- A store gives a listed peer the policy of its entry. -/
theorem resolve_store_of_listed {entry : AuthorizedClient}
    (h : store.listed hash peerKey = some entry) :
    resolve hash (.store store) peerKey = .ok (.policy (.of entry)) := by
  obtain ⟨key, rfl, hclient⟩ := Option.bind_eq_some_iff.1 h
  simp only [resolve, AuthorizedClients.authorize, hclient, Except.map]

/-- A store refuses a peer that proved no key or is not listed. -/
theorem exists_resolve_store_eq_error (h : store.listed hash peerKey = none) :
    ∃ refusal, resolve hash (.store store) peerKey = .error refusal := by
  cases peerKey with
  | none => exact ⟨unauthenticatedRefusal, rfl⟩
  | some key =>
    have hclient : store.client (key.fingerprint hash) = none := h
    exact ⟨store.unlisted (key.fingerprint hash), by
      simp only [resolve, AuthorizedClients.authorize, hclient, Except.map]⟩

end OnoSendai.Link
