import OnoSendai.Change.Level
import OnoSendai.Protection.Registry

/-!
# The protection of a fleet

A plan may run on many hosts. Each host is analysed on its own, and the rows of all of them are put
into one matrix, whose word is computed as for a single host. The rows of a host the policy excludes
stay in the matrix, marked irrelevant; a host nobody could analyse stands there as one unknown row.

A transaction boundary is known by the name of its provider. On one host that is enough, but two
hosts can have a provider of the same name each, and the rows of both then read as one transaction.
-/

namespace OnoSendai

open ProtectionSummary List

/-! ### The strongest word -/

/-- The row with policy declaring its domain irrelevant. -/
def DomainCoverage.declaredIrrelevant (row : DomainCoverage) : DomainCoverage :=
  { row with policyIrrelevant := true }

@[simp]
theorem DomainCoverage.isRequired_declaredIrrelevant (row : DomainCoverage) :
    row.declaredIrrelevant.isRequired = false := by
  simp [declaredIrrelevant, isRequired]

namespace ProtectionSummary

variable {summary : ProtectionSummary}

/-- The summary with one more exclusion of the plan. -/
def excluding (summary : ProtectionSummary) (exclusion : CoverageExclusion) : ProtectionSummary :=
  { summary with exclusions := summary.exclusions ++ [exclusion] }

@[simp]
theorem rows_foldl_excluding (exclusions : List CoverageExclusion) :
    (exclusions.foldl excluding summary).rows = summary.rows := by
  induction exclusions generalizing summary with
  | nil => rfl
  | cons exclusion rest ih => exact ih

/-- Rows in one transaction all name their scope, and the scopes are equal. -/
theorem InOneTransaction.scopes (h : summary.InOneTransaction) :
    (summary.requiredRows.filterMap (·.transactionScope)).length = summary.requiredRows.length ∧
      allEqual (summary.requiredRows.filterMap (·.transactionScope)) := by
  obtain ⟨scope, hscope⟩ := h
  refine ⟨filterMap_length_eq_length.2 fun row hrow => ?_, allEqual_iff.2 ?_⟩
  · rw [(hscope row hrow).2]
    rfl
  · have hsame : ∀ found ∈ summary.requiredRows.filterMap (·.transactionScope),
        found = scope := by
      intro found hfound
      obtain ⟨row, hrow, heq⟩ := mem_filterMap.1 hfound
      rw [(hscope row hrow).2] at heq
      exact (Option.some.inj heq).symm
    intro one hone two htwo
    rw [hsame one hone, hsame two htwo]

/-- The word is the strongest exactly for rows that are all satisfied, of a known domain, and in
one transaction. -/
theorem level_eq_transactional_iff :
    summary.level = .transactional ↔
      summary.requiredRows ≠ [] ∧
        (∀ row ∈ summary.requiredRows, row.isSatisfied ∧ row.domain ≠ .unknown) ∧
        summary.InOneTransaction := by
  constructor
  · intro h
    obtain ⟨hall, hne⟩ := satisfied_of_level (.inr h)
    exact ⟨hne, hall, inOneTransaction_of_level h⟩
  · rintro ⟨hne, hall, hone⟩
    have hcount : summary.requiredRows.countP (·.isSatisfied) = summary.requiredRows.length :=
      countP_eq_length.2 fun row hrow => (hall row hrow).1
    have hdomain : summary.requiredRows.any (·.domain = .unknown) = false :=
      any_eq_false.2 fun row hrow => by simpa using (hall row hrow).2
    have htransactional : summary.requiredRows.all (·.protection = .transactional) = true := by
      obtain ⟨scope, hscope⟩ := hone
      exact all_eq_true.2 fun row hrow => by simpa using (hscope row hrow).1
    have hlength : summary.requiredRows.length ≠ 0 := by simpa using hne
    simp only [level]
    rw [if_neg (by simpa using hne), hcount, if_neg hlength, if_neg (lt_irrefl _), hdomain,
      if_neg Bool.false_ne_true, if_pos]
    simpa [htransactional] using hone.scopes

/-- A matrix whose rows are earned does not have one of the weak words. -/
theorem Earned.level (h : summary.Earned) (hne : summary.requiredRows ≠ []) :
    summary.level = .transactional ∨ summary.level = .protected' ∨
      summary.level = .compensatable := by
  have hcount : summary.requiredRows.countP (·.isSatisfied) = summary.requiredRows.length :=
    countP_eq_length.2 (shortfall_eq_nil_iff.1 h.shortfall_eq_nil)
  have hdomain : summary.requiredRows.any (·.domain = .unknown) = false :=
    any_eq_false.2 fun row hrow => by simpa using (h.known row hrow).1
  have hlength : summary.requiredRows.length ≠ 0 := by simpa using hne
  simp only [ProtectionSummary.level]
  rw [if_neg (by simpa using hne), hcount, if_neg hlength, if_neg (lt_irrefl _), hdomain,
    if_neg Bool.false_ne_true]
  split_ifs with htransaction hpersistent himaged
  · exact .inl rfl
  · exact .inr (.inl rfl)
  · -- Every persistent row is covered by an image something stands behind.
    refine absurd (all_eq_true.2 fun row hrow => ?_) himaged
    obtain ⟨himage, hbehind⟩ :=
      h.imaged row (mem_filter.1 hrow).1 (mem_filter.1 hrow).2
    simpa [himage, Option.isSome_iff_ne_none] using hbehind
  · exact .inr (.inr rfl)

theorem Earned.of_subset {part : ProtectionSummary} (h : summary.Earned)
    (hsub : ∀ row ∈ part.requiredRows, row ∈ summary.requiredRows) : part.Earned where
  shortfall_eq_nil := shortfall_eq_nil_iff.2 fun row hrow =>
    shortfall_eq_nil_iff.1 h.shortfall_eq_nil row (hsub row hrow)
  known row hrow := h.known row (hsub row hrow)
  imaged row hrow := h.imaged row (hsub row hrow)

end ProtectionSummary

namespace Protection

/-! ### Hosts -/

/-- What the protection analysis of one host established. -/
structure HostCoverage where
  host : String
  analysis : Except String ProtectionSummary

namespace HostCoverage

/-- The matrix of the host, where it could be analysed. -/
def summary (host : HostCoverage) : Option ProtectionSummary :=
  match host.analysis with
  | .ok summary => some summary
  | .error _ => none

/-- The word of the host alone. -/
def level (host : HostCoverage) : ProtectionLevel :=
  match host.analysis with
  | .ok summary => summary.level
  | .error _ => .unknown

/-- The rows the host contributes to the matrix of the plan. -/
def rows (host : HostCoverage) : List DomainCoverage :=
  match host.analysis with
  | .ok summary => summary.rows
  | .error reason =>
    [{ domain := .remoteSystem
       objective := .unknown
       protection := .unknown
       assets := []
       consistency := none
       transactionScope := none
       exclusions := []
       notProtectedBy := []
       note := host.host ++ ": its protection could not be analysed, so nothing is claimed for it: "
         ++ reason
       policyIrrelevant := false }]

/-- The rows the host contributes that are required. -/
def requiredRows (host : HostCoverage) : List DomainCoverage :=
  host.rows.filter (·.isRequired)

/-- The host requires something and has one of the three weak words, or nobody could analyse it. -/
def FallsShort (host : HostCoverage) : Prop :=
  host.summary = none ∨
    host.requiredRows ≠ [] ∧
      (host.level = .unprotected ∨ host.level = .partiallyProtected ∨ host.level = .unknown)

end HostCoverage

/-- A protection policy with the hosts it excludes from the claim of the plan. -/
structure FleetPolicy extends ProtectionPolicy where
  excludedHosts : List String

/-- Whether the policy excludes a host. -/
def FleetPolicy.excludesHost (policy : FleetPolicy) (host : String) : Bool :=
  policy.excludedHosts.any (· = host)

/-- The rows a host has in the matrix of the plan. -/
def rowsUnder (policy : FleetPolicy) (host : HostCoverage) : List DomainCoverage :=
  if policy.excludesHost host.host then
    host.rows.map (·.declaredIrrelevant)
  else
    host.rows

/-- The exclusions a host has in the matrix of the plan. -/
def exclusionsUnder (policy : FleetPolicy) (host : HostCoverage) : List CoverageExclusion :=
  (if policy.excludesHost host.host then
    [{ domain := .remoteSystem
       subject := host.host
       reason := "the plan's policy excludes this host from its protection claim (§29.2)"
       irreversible := false }]
  else
    []) ++
  match host.summary with
  | some summary => summary.exclusions
  | none => []

/-- One matrix over every host of a plan. -/
def compose (hosts : List HostCoverage) (policy : FleetPolicy) : ProtectionSummary :=
  (hosts.flatMap (exclusionsUnder policy)).foldl excluding
    (.of (hosts.flatMap (rowsUnder policy)))

/-- The hosts the policy keeps in the claim of the plan. -/
def kept (hosts : List HostCoverage) (policy : FleetPolicy) : List HostCoverage :=
  hosts.filter fun host => !policy.excludesHost host.host

variable {hosts hosts' : List HostCoverage} {policy : FleetPolicy} {host : HostCoverage}
  {row : DomainCoverage}

theorem mem_kept : host ∈ kept hosts policy ↔ host ∈ hosts ∧ policy.excludesHost host.host = false
    := by
  rw [kept, mem_filter, Bool.not_eq_true']

/-- What the plan requires is what the hosts that are kept require. -/
theorem requiredRows_compose (hosts : List HostCoverage) (policy : FleetPolicy) :
    (compose hosts policy).requiredRows = (kept hosts policy).flatMap (·.requiredRows) := by
  rw [requiredRows, compose, rows_foldl_excluding,
    of, kept]
  induction hosts with
  | nil => rfl
  | cons host rest ih =>
    rw [flatMap_cons, filter_append, ih, filter_cons]
    cases hexcluded : policy.excludesHost host.host with
    | true =>
      have hnone : (rowsUnder policy host).filter (·.isRequired) = [] := by
        simp [rowsUnder, hexcluded, filter_eq_nil_iff]
      rw [hnone]
      rfl
    | false =>
      have hrows : rowsUnder policy host = host.rows := by
        rw [rowsUnder, hexcluded]
        rfl
      rw [hrows]
      rfl

theorem mem_requiredRows_compose :
    row ∈ (compose hosts policy).requiredRows ↔
      ∃ host ∈ kept hosts policy, row ∈ host.requiredRows := by
  rw [requiredRows_compose, mem_flatMap]

/-! ### What holds of every fleet -/

theorem level_compose_of_kept_eq (h : kept hosts policy = kept hosts' policy) :
    (compose hosts policy).level = (compose hosts' policy).level :=
  level_of_requiredRows_eq (by rw [requiredRows_compose, requiredRows_compose, h])

theorem level_compose_of_perm (h : hosts.Perm hosts') :
    (compose hosts policy).level = (compose hosts' policy).level := by
  apply level_of_perm
  rw [compose, compose, rows_foldl_excluding,
    rows_foldl_excluding]
  exact h.flatMap_right _

/-- Where the fleet has one of the two strongest words, no host that is kept falls short. -/
theorem not_fallsShort_of_level
    (h : (compose hosts policy).level = .protected' ∨ (compose hosts policy).level = .transactional)
    (hhost : host ∈ kept hosts policy) : ¬ host.FallsShort := by
  have hearned := earned_of_level h
  obtain ⟨name, analysis⟩ := host
  cases analysis with
  | error reason =>
    -- The row that stands for the host has an unknown objective.
    intro _
    have hrow := mem_requiredRows_compose.2 ⟨_, hhost, mem_filter.2 ⟨mem_cons_self, rfl⟩⟩
    exact (hearned.known _ hrow).2.1 rfl
  | ok summary =>
    rintro (hnone | ⟨hne, hlevel⟩)
    · exact absurd hnone nofun
    · have hpart : summary.Earned := hearned.of_subset fun row hrow =>
        mem_requiredRows_compose.2 ⟨_, hhost, hrow⟩
      have hweak : summary.level = .unprotected ∨ summary.level = .partiallyProtected ∨
        summary.level = .unknown := hlevel
      rcases hpart.level hne with hlevel | hlevel | hlevel <;> rw [hlevel] at hweak <;>
        simp at hweak

/-! ### Boundaries -/

/-- Rows of two different hosts are required. -/
def SeveralHosts (hosts : List HostCoverage) (policy : FleetPolicy) : Prop :=
  ∃ one ∈ kept hosts policy, ∃ two ∈ kept hosts policy,
    one.host ≠ two.host ∧ one.requiredRows ≠ [] ∧ two.requiredRows ≠ []

/-- Every required row is transactional, of a known objective and domain, and names one and the
same scope. -/
def OneScope (hosts : List HostCoverage) (policy : FleetPolicy) : Prop :=
  ∃ scope, ∀ host ∈ kept hosts policy, ∀ row ∈ host.requiredRows,
    row.protection = .transactional ∧ row.transactionScope = some scope ∧
      row.objective ≠ .unknown ∧ row.domain ≠ .unknown

/-- The fleet is never better protected than its hosts: it is not one transaction when two hosts
take part, no strong word stands over a host that falls short, and neither the hosts that are
excluded nor the order of the hosts change the word. -/
structure FleetHonest (hosts : List HostCoverage) (policy : FleetPolicy) : Prop where
  boundaries : SeveralHosts hosts policy → (compose hosts policy).level ≠ .transactional
  weakest : ∀ host ∈ kept hosts policy, host.FallsShort →
    (compose hosts policy).level ≠ .protected' ∧ (compose hosts policy).level ≠ .transactional
  excluded : ∀ hosts', kept hosts' policy = kept hosts policy →
    (compose hosts' policy).level = (compose hosts policy).level
  unordered : ∀ hosts', hosts'.Perm hosts →
    (compose hosts' policy).level = (compose hosts policy).level

theorem isSatisfied_of_transactional (h : row.protection = .transactional) :
    row.isSatisfied = true ↔ row.objective ≠ .unknown := by
  rw [DomainCoverage.isSatisfied, h]
  cases row.objective <;> simp [RecoveryObjective.satisfiedBy, DomainProtection.isStateImage]

/-- **When a fleet is one transaction.** Something is required, and all that is required names one
scope. -/
theorem level_compose_eq_transactional_iff :
    (compose hosts policy).level = .transactional ↔
      (∃ host ∈ kept hosts policy, host.requiredRows ≠ []) ∧ OneScope hosts policy := by
  rw [level_eq_transactional_iff]
  constructor
  · rintro ⟨hne, hall, scope, hscope⟩
    refine ⟨?_, scope, fun host hhost row hrow => ?_⟩
    · obtain ⟨row, hrow⟩ := exists_mem_of_ne_nil _ hne
      obtain ⟨host, hhost, hrow⟩ := mem_requiredRows_compose.1 hrow
      exact ⟨host, hhost, ne_nil_of_mem hrow⟩
    · have hmem := mem_requiredRows_compose.2 ⟨host, hhost, hrow⟩
      obtain ⟨htransactional, hnamed⟩ := hscope row hmem
      obtain ⟨hsatisfied, hdomain⟩ := hall row hmem
      exact ⟨htransactional, hnamed, (isSatisfied_of_transactional htransactional).1 hsatisfied,
        hdomain⟩
  · rintro ⟨⟨host, hhost, hne⟩, scope, hscope⟩
    refine ⟨?_, fun row hrow => ?_, scope, fun row hrow => ?_⟩
    · obtain ⟨row, hrow⟩ := exists_mem_of_ne_nil _ hne
      exact ne_nil_of_mem (mem_requiredRows_compose.2 ⟨host, hhost, hrow⟩)
    · obtain ⟨host, hhost, hrow⟩ := mem_requiredRows_compose.1 hrow
      obtain ⟨htransactional, -, hobjective, hdomain⟩ := hscope host hhost row hrow
      exact ⟨(isSatisfied_of_transactional htransactional).2 hobjective, hdomain⟩
    · obtain ⟨host, hhost, hrow⟩ := mem_requiredRows_compose.1 hrow
      obtain ⟨htransactional, hnamed, -, -⟩ := hscope host hhost row hrow
      exact ⟨htransactional, hnamed⟩

/-- **The word of a fleet.** A fleet is never better protected than its hosts exactly when it is not
the case that rows of two hosts are required and all required rows name one scope. -/
theorem fleetHonest_iff (hosts : List HostCoverage) (policy : FleetPolicy) :
    FleetHonest hosts policy ↔ ¬ (SeveralHosts hosts policy ∧ OneScope hosts policy) := by
  constructor
  · rintro h ⟨hseveral, hscope⟩
    obtain ⟨one, hone, -, -, -, hne, -⟩ := id hseveral
    exact h.boundaries hseveral (level_compose_eq_transactional_iff.2 ⟨⟨one, hone, hne⟩, hscope⟩)
  · intro h
    refine ⟨fun hseveral hlevel => ?_, fun host hhost hshort => ⟨fun hlevel => ?_, fun hlevel => ?_⟩,
      fun hosts' hkept => level_compose_of_kept_eq hkept,
      fun hosts' hperm => level_compose_of_perm hperm⟩
    · exact h ⟨hseveral, (level_compose_eq_transactional_iff.1 hlevel).2⟩
    · exact not_fallsShort_of_level (.inl hlevel) hhost hshort
    · exact not_fallsShort_of_level (.inr hlevel) hhost hshort

/-- A host whose database server rolls its own changes back. -/
def databaseHost (name : String) : HostCoverage where
  host := name
  analysis := .ok (.of
    [{ domain := .providerTransactionState
       objective := .preserveExact
       protection := .transactional
       assets := []
       consistency := some .transactionConsistent
       transactionScope := some "ono.provider.database"
       exclusions := []
       notProtectedBy := []
       note := "one transaction over its own scope"
       policyIrrelevant := false }])

theorem not_fleetHonest_databases : ¬ ∀ hosts policy, FleetHonest hosts policy := by
  intro h
  have hfleet := h [databaseHost "db-one", databaseHost "db-two"]
    { mode := .prefer, limits := ⟨none, none, none, none⟩, irrelevantDomains := [],
      excludedHosts := [] }
  refine hfleet.boundaries ?_ (by decide)
  exact ⟨databaseHost "db-one", mem_kept.2 ⟨by simp, rfl⟩, databaseHost "db-two",
    mem_kept.2 ⟨by simp, rfl⟩, by decide, by decide, by decide⟩

end Protection

end OnoSendai
