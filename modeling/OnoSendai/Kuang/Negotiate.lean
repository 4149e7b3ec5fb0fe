import OnoSendai.Kuang.Asked
import OnoSendai.Kuang.Emit

/-!
# Negotiation at load

Before anything of a package runs, the capabilities it declares are measured against the policy and
a contract is drawn up (`ono_kuang_supervisor::negotiate`): a required capability that is not
granted refuses the load, another one is listed as denied, and every limit is the smaller of what
the package declares and what the host allows. Whether a capability is granted is asked of the
policy without a time and without the declared scope, both of which each call is measured against.
-/

namespace OnoSendai.Kuang

open List

/-! ### What is declared -/

/-- How a package depends on a capability. -/
inductive DeclarationClass
  | required
  | optional
  | runtimeRequested
deriving DecidableEq

/-- A capability a package asks for, in a scope or without one. -/
structure CapabilityRequest where
  capability : Capability
  scope : Option Members

/-- The `runtime` section of a manifest. -/
structure Runtime where
  memoryMax : ℕ
  maxConcurrentInvocations : Option ℕ
  overflow : Option OverflowPolicy

/-- The `state` section of a manifest. -/
structure StateDeclaration where
  quota : Option ℕ

/-- The manifest of a package. -/
structure Manifest where
  requiredCapabilities : List CapabilityRequest
  optionalCapabilities : List CapabilityRequest
  runtimeRequestedCapabilities : List CapabilityRequest
  runtime : Option Runtime
  state : Option StateDeclaration

/-- Every declared request with its class, in the order of declaration. -/
def Manifest.capabilityRequests (manifest : Manifest) :
    List (DeclarationClass × CapabilityRequest) :=
  manifest.requiredCapabilities.map (.required, ·) ++
    manifest.optionalCapabilities.map (.optional, ·) ++
    manifest.runtimeRequestedCapabilities.map (.runtimeRequested, ·)

/-- The ceilings of the host. -/
structure HostLimits where
  memoryMax : ℕ
  stateQuota : ℕ
  queueDepth : ℕ
  callDeadlineMs : ℕ
  maxFrame : ℕ
  overflow : OverflowPolicy
  maxConcurrentInvocations : ℕ

/-! ### The contract -/

/-- A capability the contract grants. -/
structure GrantedCapability where
  capability : String
  class' : DeclarationClass
  scope : Option Members
  enforcement : Enforcement

/-- A capability the contract denies. -/
structure DeniedCapability where
  capability : String
  class' : DeclarationClass
  reason : String

/-- The limits that apply to an instance. -/
structure EffectiveLimits where
  memoryMax : Option ℕ
  stateQuota : ℕ
  queueDepth : ℕ
  callDeadlineMs : ℕ
  maxFrame : ℕ
  maxConcurrentInvocations : ℕ

/-- The contract negotiated when a package is loaded. -/
structure PluginContract where
  hostApi : String
  valueProtocol : String
  granted : List GrantedCapability
  denied : List DeniedCapability
  limits : EffectiveLimits
  overflow : OverflowPolicy
  degraded : Bool

/-! ### Negotiation -/

/-- Whether the policy has any grant for a capability that is not denied. -/
def Policy.grantsCapability (policy : Policy) (capability : Capability) : Bool :=
  capability ∉ policy.systemDenies && capability ∉ policy.userDenies &&
    policy.grants.any fun grant => grant.capability = capability

/-- The word of a denial's source. -/
def DenialSource.word : DenialSource → String
  | system => "system"
  | user => "user"
  | default => "default"

/-- The failure of a load for a required capability. -/
def capabilityDenied (capability : Capability) : ErrorValue where
  code := .other "load.capability_denied"
  message := "required capability \x60" ++ capability.id ++
    "\x60 was not granted; the package stays enabled and unloaded"

section Negotiate

variable (matchers : Matchers) (policy : Policy) (now : Int)

/-- What the contract says of a request that is granted. -/
def grantedFor (class' : DeclarationClass) (request : CapabilityRequest) : GrantedCapability where
  capability := request.capability.id
  class' := class'
  scope := request.scope
  enforcement :=
    ((request.capability.scopeKeys.find? fun key =>
      request.scope.any fun scope => (scope.lookup key.name).isSome).map
        ScopeKey.enforcement).getD .broker

/-- What the contract says of a request that is not granted. -/
def deniedFor (class' : DeclarationClass) (request : CapabilityRequest) : DeniedCapability where
  capability := request.capability.id
  class' := class'
  reason :=
    match policy.evaluateAt matchers request.capability [] now with
    | .denied source => source.word
    | _ => "not granted"

/-- The capabilities granted and denied, or the refusal for a required one. -/
def negotiateRequests :
    List (DeclarationClass × CapabilityRequest) →
      Except ErrorValue (List GrantedCapability × List DeniedCapability)
  | [] => .ok ([], [])
  | (class', request) :: rest =>
    if policy.grantsCapability request.capability then do
      let (granted, denied) ← negotiateRequests rest
      return (grantedFor class' request :: granted, denied)
    else
      match class' with
      | .required => .error (capabilityDenied request.capability)
      | .optional | .runtimeRequested => do
        let (granted, denied) ← negotiateRequests rest
        return (granted, deniedFor matchers policy now class' request :: denied)

/-- The limits of a package on a host. -/
def effectiveLimits (manifest : Manifest) (limits : HostLimits) : EffectiveLimits where
  memoryMax := manifest.runtime.map fun runtime => min runtime.memoryMax limits.memoryMax
  stateQuota :=
    ((manifest.state.bind StateDeclaration.quota).map (min · limits.stateQuota)).getD
      limits.stateQuota
  queueDepth := limits.queueDepth
  callDeadlineMs := limits.callDeadlineMs
  maxFrame := limits.maxFrame
  maxConcurrentInvocations :=
    max (((manifest.runtime.bind Runtime.maxConcurrentInvocations).map
      (min · limits.maxConcurrentInvocations)).getD limits.maxConcurrentInvocations) 1

/-- The overflow policy of a package on a host: what the package prefers, unless it would drop the
newest. -/
def effectiveOverflow (manifest : Manifest) (limits : HostLimits) : OverflowPolicy :=
  match manifest.runtime.bind Runtime.overflow with
  | some preferred => if preferred = .dropNewest then limits.overflow else preferred
  | none => limits.overflow

/-- **The contract of a package**, as of an instant. -/
def negotiate (manifest : Manifest) (limits : HostLimits) : Except ErrorValue PluginContract := do
  let (granted, denied) ← negotiateRequests matchers policy now manifest.capabilityRequests
  return {
    hostApi := "kuang-host/11.3"
    valueProtocol := "ono-value/1"
    granted := granted
    denied := denied
    limits := effectiveLimits manifest limits
    overflow := effectiveOverflow manifest limits
    degraded := denied.any fun denial => denial.class' = .optional }

/-! ### What a contract promises -/

/-- One grant for a capability stands and covers every value of a scope. -/
def Policy.Honours (capability : Capability) (scope : Option Members) : Prop :=
  ¬policy.Denies capability ∧ ∃ grant ∈ policy.grants,
    grant.capability = capability ∧ grant.Stands now ∧
      ∀ value : ScopeUse, value.Fits capability → Covers matchers policy.home scope value →
        Covers matchers policy.home grant.scope value

/-- The limits are within those of the host, and let something run. -/
structure EffectiveLimits.WithinHost (effective : EffectiveLimits) (limits : HostLimits) : Prop where
  memoryMax : ∀ memory ∈ effective.memoryMax, memory ≤ limits.memoryMax
  stateQuota : effective.stateQuota ≤ limits.stateQuota
  queueDepth : effective.queueDepth ≤ limits.queueDepth
  callDeadlineMs : effective.callDeadlineMs ≤ limits.callDeadlineMs
  maxFrame : effective.maxFrame ≤ limits.maxFrame
  invocations : effective.maxConcurrentInvocations ≤ limits.maxConcurrentInvocations
  serves : 1 ≤ effective.maxConcurrentInvocations

/-- **What a contract promises holds of the policy**: every required capability is honoured in its
scope; what is granted is allowed on every call within the scope it reports; what is not honoured is
listed as denied; and the limits are the host's. -/
structure Honoured (manifest : Manifest) (limits : HostLimits) (contract : PluginContract) :
    Prop where
  required : ∀ request ∈ manifest.requiredCapabilities,
    policy.Honours matchers now request.capability request.scope
  granted : ∀ entry ∈ contract.granted, ∀ capability : Capability, capability.id = entry.capability →
    ∀ used : List ScopeUse,
      (∀ value ∈ used, value.Fits capability ∧ Covers matchers policy.home entry.scope value) →
        policy.Allows matchers capability used now
  denied : ∀ declared ∈ manifest.capabilityRequests, declared.1 ≠ .required →
    ¬policy.Honours matchers now declared.2.capability declared.2.scope →
      ∃ entry ∈ contract.denied,
        entry.capability = declared.2.capability.id ∧ entry.class' = declared.1
  limits : contract.limits.WithinHost limits

/-- Some required capability is not granted. -/
def Refused (manifest : Manifest) : Prop :=
  ∃ request ∈ manifest.requiredCapabilities, policy.grantsCapability request.capability = false

variable {matchers policy now} {manifest : Manifest} {limits : HostLimits}
  {requests : List (DeclarationClass × CapabilityRequest)} {capability : Capability}
  {scope : Option Members}

/-! ### What negotiation does -/

theorem Capability.id_injective : Function.Injective Capability.id := by
  intro one two h
  have hall (capability : Capability) : capability ∈ Capability.all := by
    cases capability <;> decide
  exact inj_on_of_nodup_map (by decide +kernel) (hall one) (hall two) h

/-- **What is honoured** is every use within the scope. -/
theorem honours_iff : policy.Honours matchers now capability scope ↔
    ∀ used : List ScopeUse,
      (∀ value ∈ used, value.Fits capability ∧ Covers matchers policy.home scope value) →
        policy.Allows matchers capability used now := by
  have hcovered := forall_covered_iff matchers policy ⟨capability, scope, none, none⟩ now False
    fun _ => False
  simp only [false_and, or_false] at hcovered
  exact hcovered.symm

/-- The requests of a manifest are refused for the first required one that is not granted, and
answered one by one otherwise. -/
theorem negotiateRequests_eq (requests : List (DeclarationClass × CapabilityRequest)) :
    (∃ declared ∈ requests, declared.1 = .required ∧
        policy.grantsCapability declared.2.capability = false ∧
        negotiateRequests matchers policy now requests =
          .error (capabilityDenied declared.2.capability)) ∨
      (∀ declared ∈ requests, declared.1 = .required →
        policy.grantsCapability declared.2.capability = true) ∧
        negotiateRequests matchers policy now requests = .ok
          ((requests.filter fun declared => policy.grantsCapability declared.2.capability).map
              fun declared => grantedFor declared.1 declared.2,
            (requests.filter fun declared => !policy.grantsCapability declared.2.capability).map
              fun declared => deniedFor matchers policy now declared.1 declared.2) := by
  induction requests with
  | nil => exact .inr ⟨by simp, rfl⟩
  | cons declared rest ih =>
    obtain ⟨class', request⟩ := declared
    rw [negotiateRequests.eq_def]
    dsimp only
    by_cases hgrants : policy.grantsCapability request.capability = true
    · rw [if_pos hgrants]
      rcases ih with ⟨other, hother, hrequired, hnot, herror⟩ | ⟨hrequired, hok⟩
      · exact .inl ⟨other, mem_cons_of_mem _ hother, hrequired, hnot, by rw [herror]; rfl⟩
      · refine .inr ⟨forall_mem_cons.2 ⟨fun _ => hgrants, hrequired⟩, ?_⟩
        rw [hok]
        simp only [filter_cons, hgrants]
        rfl
    · rw [if_neg hgrants]
      have hnot : policy.grantsCapability request.capability = false := by simpa using hgrants
      cases hclass : class' with
      | required => exact .inl ⟨(.required, request), mem_cons_self, rfl, hnot, rfl⟩
      | optional | runtimeRequested =>
        rcases ih with ⟨other, hother, hrequired, hother', herror⟩ | ⟨hrequired, hok⟩
        · exact .inl ⟨other, mem_cons_of_mem _ hother, hrequired, hother', by
            rw [herror]; rfl⟩
        · refine .inr ⟨forall_mem_cons.2 ⟨nofun, hrequired⟩, ?_⟩
          rw [hok]
          simp only [filter_cons, hnot]
          rfl

theorem mem_capabilityRequests {request : CapabilityRequest} :
    (.required, request) ∈ manifest.capabilityRequests ↔
      request ∈ manifest.requiredCapabilities := by
  simp [Manifest.capabilityRequests]

theorem withinHost_iff :
    (effectiveLimits manifest limits).WithinHost limits ↔ 1 ≤ limits.maxConcurrentInvocations := by
  have hcapped (declared : Option ℕ) (cap : ℕ) : (declared.map (min · cap)).getD cap ≤ cap := by
    cases declared with
    | none => exact le_rfl
    | some declared => exact min_le_right declared cap
  constructor
  · intro h
    exact (le_max_right _ 1).trans h.invocations
  · intro h
    refine ⟨?_, hcapped _ _, le_rfl, le_rfl, le_rfl, max_le (hcapped _ _) h, le_max_right _ _⟩
    intro memory hmemory
    obtain ⟨runtime, -, rfl⟩ := Option.mem_map.1 hmemory
    exact min_le_right _ _

/-- The contract of a package that is not refused. -/
theorem negotiate_eq (hnot : ¬Refused policy manifest) :
    negotiate matchers policy now manifest limits = .ok {
      hostApi := "kuang-host/11.3"
      valueProtocol := "ono-value/1"
      granted := (manifest.capabilityRequests.filter fun declared =>
        policy.grantsCapability declared.2.capability).map fun declared =>
          grantedFor declared.1 declared.2
      denied := (manifest.capabilityRequests.filter fun declared =>
        !policy.grantsCapability declared.2.capability).map fun declared =>
          deniedFor matchers policy now declared.1 declared.2
      limits := effectiveLimits manifest limits
      overflow := effectiveOverflow manifest limits
      degraded := ((manifest.capabilityRequests.filter fun declared =>
        !policy.grantsCapability declared.2.capability).map fun declared =>
          deniedFor matchers policy now declared.1 declared.2).any fun denial =>
            denial.class' = .optional } := by
  rcases @negotiateRequests_eq matchers policy now manifest.capabilityRequests with
    ⟨⟨class', request⟩, hrequest, hrequired, hdenied, -⟩ | ⟨-, hok⟩
  · obtain rfl : class' = .required := hrequired
    exact absurd ⟨request, mem_capabilityRequests.1 hrequest, hdenied⟩ hnot
  · rw [negotiate, hok]
    rfl

theorem negotiate_of_refused (h : Refused policy manifest) (contract : PluginContract) :
    negotiate matchers policy now manifest limits ≠ .ok contract := by
  obtain ⟨request, hrequest, hdenied⟩ := h
  rcases @negotiateRequests_eq matchers policy now manifest.capabilityRequests with
    ⟨declared, -, -, -, herror⟩ | ⟨hrequired, -⟩
  · rw [negotiate, herror]
    nofun
  · have hgranted := hrequired (.required, request) (mem_capabilityRequests.2 hrequest) rfl
    rw [hdenied] at hgranted
    cases hgranted

/-- **When every contract is honoured**: when none is drawn up, or when the host lets something run
and every capability that has any grant at all has one that stands and is as wide as the declared
scope. -/
theorem negotiate_honoured_iff (matchers : Matchers) (manifest : Manifest) (policy : Policy)
    (limits : HostLimits) (now : Int) :
    (∀ contract, negotiate matchers policy now manifest limits = .ok contract →
        Honoured matchers policy now manifest limits contract) ↔
      Refused policy manifest ∨ 1 ≤ limits.maxConcurrentInvocations ∧
        ∀ declared ∈ manifest.capabilityRequests,
          policy.grantsCapability declared.2.capability = true →
            policy.Honours matchers now declared.2.capability declared.2.scope := by
  by_cases hrefused : Refused policy manifest
  · simp only [hrefused, true_or, iff_true]
    exact fun contract hcontract => absurd hcontract (negotiate_of_refused hrefused contract)
  · simp only [hrefused, false_or, negotiate_eq hrefused, Except.ok.injEq, forall_eq']
    constructor
    · intro h
      refine ⟨withinHost_iff.1 h.limits, fun declared hdeclared hgrants => honours_iff.2 ?_⟩
      exact h.granted (grantedFor declared.1 declared.2) (mem_map.2
        ⟨declared, mem_filter.2 ⟨hdeclared, hgrants⟩, rfl⟩) _ rfl
    · rintro ⟨hlimits, hhonours⟩
      refine ⟨fun request hrequest => ?_, fun entry hentry capability hid => ?_,
        fun declared hdeclared _ hnot => ?_, withinHost_iff.2 hlimits⟩
      · refine hhonours (.required, request) (mem_capabilityRequests.2 hrequest) ?_
        by_contra hdenied
        exact hrefused ⟨request, hrequest, by simpa using hdenied⟩
      · obtain ⟨declared, hdeclared, rfl⟩ := mem_map.1 hentry
        obtain ⟨hdeclared, hgrants⟩ := mem_filter.1 hdeclared
        obtain rfl := Capability.id_injective hid
        exact honours_iff.1 (hhonours declared hdeclared hgrants)
      · refine ⟨deniedFor matchers policy now declared.1 declared.2, mem_map.2
          ⟨declared, mem_filter.2 ⟨hdeclared, ?_⟩, rfl⟩, rfl, rfl⟩
        rw [Bool.not_eq_true', Bool.eq_false_iff]
        exact fun hgrants => hnot (hhonours declared hdeclared hgrants)

end Negotiate

/-! ### A window that has closed -/

/-- A package that requires a capability in a scope. -/
def requiring (capability : Capability) (scope : Option Members) : Manifest where
  requiredCapabilities := [⟨capability, scope⟩]
  optionalCapabilities := []
  runtimeRequestedCapabilities := []
  runtime := none
  state := none

/-- What a host allows where nothing else is said. -/
def HostLimits.default : HostLimits where
  memoryMax := 512 * 1024 * 1024
  stateQuota := 1024 * 1024
  queueDepth := 16
  callDeadlineMs := 5000
  maxFrame := 1024 * 1024
  overflow := .blockUpstream
  maxConcurrentInvocations := 4

/-- What the matching of scopes is given, where no pattern is a glob. -/
def globless : Matchers where
  display _ := ""
  glob _ := none

/-- A policy of one grant. -/
def granting (grant : Grant) : Policy where
  systemDenies := []
  userDenies := []
  grants := [grant]
  home := none

/-- A scope of one port. -/
def onPort (port : String) : Option Members :=
  some [("ports", .array [.string port])]

/-- A lease whose window has closed, and a grant for a port that was not asked for, let a package
load that requires the capability. -/
theorem not_negotiate_honoured :
    (¬∀ (matchers : Matchers) (manifest : Manifest) (policy : Policy) (limits : HostLimits)
      (now : Int), 1 ≤ limits.maxConcurrentInvocations →
        ∀ contract, negotiate matchers policy now manifest limits = .ok contract →
          Honoured matchers policy now manifest limits contract) ∧
      ¬∀ (matchers : Matchers) (manifest : Manifest) (policy : Policy) (limits : HostLimits)
        (now : Int), 1 ≤ limits.maxConcurrentInvocations →
          (∀ grant ∈ policy.grants, grant.Stands now) →
            ∀ contract, negotiate matchers policy now manifest limits = .ok contract →
              Honoured matchers policy now manifest limits contract := by
  have hloads (grant : Grant) (scope : Option Members) :
      ¬Refused (granting grant) (requiring grant.capability scope) := by
    rintro ⟨request, hrequest, hdenied⟩
    obtain rfl := mem_singleton.1 hrequest
    simp [Policy.grantsCapability, granting] at hdenied
  constructor
  · intro h
    have hcontract := h globless (requiring .clockRead none)
      (granting ⟨.clockRead, none, some 5, none⟩) .default 10 (by decide) _
      (negotiate_eq (hloads ⟨.clockRead, none, some 5, none⟩ none))
    obtain ⟨-, grant, hgrant, -, hstands, -⟩ := hcontract.required _ mem_cons_self
    obtain rfl := mem_singleton.1 hgrant
    exact absurd (hstands 5 rfl) (by decide)
  · intro h
    have hcontract := h globless (requiring .networkListen (onPort "80"))
      (granting ⟨.networkListen, onPort "443", none, none⟩) .default 10 (by decide)
      (by simp [granting, Grant.Stands]) _
      (negotiate_eq (hloads ⟨.networkListen, onPort "443", none, none⟩ (onPort "80")))
    obtain ⟨-, grant, hgrant, -, -, hcovers⟩ := hcontract.required _ mem_cons_self
    obtain rfl := mem_singleton.1 hgrant
    have hcovered := hcovers (.port "ports" 80) (by
      refine ⟨.broker "ports" .portList, ?_, rfl, rfl⟩
      decide) (covers_some.2 (by decide +kernel))
    exact absurd (covers_some.1 hcovered) (by decide +kernel)

end OnoSendai.Kuang
