import OnoSendai.Kuang.Consent
import OnoSendai.Lib.Covering

/-!
# What a just-in-time consent adds

Two policies are compared, before and after an answer that allows: nothing that was allowed may be
lost, and what is new may only use values that were asked about. A policy allows a use through one
grant, so the comparison comes down to single grants: each grant after the answer has to be within
one grant that was there and lasts as long, or to stand for nothing but what was asked about.
-/

namespace OnoSendai.Kuang

open List Policy

/-! ### Two policies -/

/-- A value that a family declares: under one of its keys, in the shape of that key. -/
def ScopeUse.Fits (capability : Capability) : ScopeUse → Prop
  | .path key _ => ∃ declared ∈ capability.scopeKeys, declared.name = key ∧
      declared.kind = .pathGlob
  | .port key _ => ∃ declared ∈ capability.scopeKeys, declared.name = key ∧
      declared.kind = .portList
  | .name key _ => ∃ declared ∈ capability.scopeKeys, declared.name = key ∧
      declared.kind ≠ .pathGlob ∧ declared.kind ≠ .portList

/-- A value is among those that were asked about. -/
def Asked (used : List ScopeUse) (value : ScopeUse) : Prop :=
  value.display ∈ askedValues used value.key

section Policies

variable (matchers : Matchers) (capability : Capability) (used : List ScopeUse) (start : Int)

/-- From an instant on, the only additional uses that the second policy allows are uses of the
family whose values were asked about. -/
def NothingMore (before after : Policy) : Prop :=
  ∀ now ≥ start, ∀ family values, (∀ value ∈ values, value.Fits family) →
    after.Allows matchers family values now → before.Allows matchers family values now ∨
      (family = capability ∧ ∀ value ∈ values, Asked used value)

/-- From an instant on, the second policy allows what the first allows. -/
def NothingLess (before after : Policy) : Prop :=
  ∀ now ≥ start, ∀ family values, (∀ value ∈ values, value.Fits family) →
    before.Allows matchers family values now → after.Allows matchers family values now

/-- A grant lasts as long as another. -/
def Grant.Outlasts (grant other : Grant) : Prop :=
  ∀ expiry ∈ grant.expiresAt, ∃ ending ∈ other.expiresAt, ending ≤ expiry

/-- A policy has a grant for the family that lasts as long as another and covers what it covers. -/
def Within (policy : Policy) (grant : Grant) : Prop :=
  ¬ policy.Denies grant.capability ∧ ∃ wider ∈ policy.grants,
    wider.capability = grant.capability ∧ wider.Outlasts grant ∧
      ∀ value : ScopeUse, value.Fits grant.capability →
        Covers matchers policy.home grant.scope value →
          Covers matchers policy.home wider.scope value

/-- A grant is for the family that was asked about, and covers nothing but the values that were. -/
def OnlyAsked (home : Option String) (grant : Grant) : Prop :=
  grant.capability = capability ∧ ∀ value : ScopeUse, value.Fits capability →
    Covers matchers home grant.scope value → Asked used value

end Policies

section Compare

variable {matchers : Matchers} {capability : Capability} {used : List ScopeUse} {start now : Int}
  {before after policy : Policy} {grant : Grant}

/-- A grant that stands has a last instant at which the grants that still stand are those that
last as long. -/
theorem exists_last (hgrant : grant.Stands start) (others : List Grant) :
    ∃ now ≥ start, grant.Stands now ∧ ∀ other ∈ others, other.Stands now → other.Outlasts grant := by
  cases hexpiry : grant.expiresAt with
  | some expiry =>
    have hlt := hgrant expiry hexpiry
    refine ⟨expiry - 1, by omega, fun ending hending => ?_, fun other _ hother ending hending => ?_⟩
    · rw [hexpiry] at hending
      obtain rfl := Option.some.inj hending
      omega
    · have hlast := hother ending hending
      exact ⟨expiry, hexpiry, by omega⟩
  | none =>
    obtain ⟨now, hstart, hlate⟩ : ∃ now ≥ start, ∀ other ∈ others, ∀ expiry ∈ other.expiresAt,
        expiry ≤ now := by
      induction others with
      | nil => exact ⟨start, le_refl _, by simp⟩
      | cons first rest ih =>
        obtain ⟨now, hnow, hrest⟩ := ih
        refine ⟨max now (first.expiresAt.getD now), le_max_of_le_left hnow,
          forall_mem_cons.mpr ⟨fun expiry hfirst => ?_, fun other hother expiry hmem => ?_⟩⟩
        · rw [Option.mem_def.mp hfirst]
          exact le_max_right _ _
        · exact le_max_of_le_left (hrest other hother expiry hmem)
    refine ⟨now, hstart, fun ending hending => by simp [hexpiry] at hending, ?_⟩
    intro other hother hstands expiry hmem
    have hlt := hstands expiry hmem
    have hle := hlate other hother expiry hmem
    omega

/-- **One grant.** Every selection of the values a grant covers is allowed by a policy, or asked
about, if and only if the whole of them is covered by one grant that stands, or asked about. -/
theorem forall_covered_iff (matchers : Matchers) (policy : Policy) (grant : Grant) (now : Int)
    (exempt : Prop) (asked : ScopeUse → Prop) :
    (∀ values : List ScopeUse,
      (∀ value ∈ values, value.Fits grant.capability ∧
        Covers matchers policy.home grant.scope value) →
      policy.Allows matchers grant.capability values now ∨
        (exempt ∧ ∀ value ∈ values, asked value)) ↔
    (¬ policy.Denies grant.capability ∧ ∃ wider ∈ policy.grants,
      wider.capability = grant.capability ∧ wider.Stands now ∧
        ∀ value : ScopeUse, value.Fits grant.capability →
          Covers matchers policy.home grant.scope value →
            Covers matchers policy.home wider.scope value) ∨
      (exempt ∧ ∀ value : ScopeUse, value.Fits grant.capability →
        Covers matchers policy.home grant.scope value → asked value) := by
  classical
  -- the sets that may cover: the grants that answer, and the values asked about
  have hselection := Lib.forall_selection_iff
    (fun (index : Option Grant) value =>
      index.elim (asked value) fun wider => Covers matchers policy.home wider.scope value)
    ((if exempt then [none] else []) ++ if policy.Denies grant.capability then [] else
      (policy.grants.filter fun wider =>
        wider.capability = grant.capability ∧ wider.Stands now).map some)
    fun value => value.Fits grant.capability ∧ Covers matchers policy.home grant.scope value
  have hindices (P : Option Grant → Prop) :
      (∃ index ∈ (if exempt then [none] else []) ++ (if policy.Denies grant.capability then [] else
        (policy.grants.filter fun wider =>
          wider.capability = grant.capability ∧ wider.Stands now).map some), P index) ↔
      (¬ policy.Denies grant.capability ∧ ∃ wider ∈ policy.grants,
        wider.capability = grant.capability ∧ wider.Stands now ∧ P (some wider)) ∨
          (exempt ∧ P none) := by
    by_cases hexempt : exempt <;> by_cases hdenies : policy.Denies grant.capability <;>
      simp [hexempt, hdenies, and_assoc, or_comm]
  simp only [hindices, Option.elim] at hselection
  simp only [allows_iff]
  rw [hselection]
  simp only [and_imp]

/-- **What two policies differ in, grant by grant.** From an instant on the second policy allows only
what the first does, or what is exempt, exactly when each of its grants is within one grant of the
first or covers only what is exempt. -/
theorem forall_allows_iff_within (matchers : Matchers) (start : Int)
    (hhome : after.home = before.home) (exempt : Capability → Prop) (asked : ScopeUse → Prop) :
    (∀ now ≥ start, ∀ family values, (∀ value ∈ values, value.Fits family) →
      after.Allows matchers family values now → before.Allows matchers family values now ∨
        (exempt family ∧ ∀ value ∈ values, asked value)) ↔
    ∀ grant ∈ after.grants, grant.Stands start → ¬ after.Denies grant.capability →
      (exempt grant.capability ∧ ∀ value : ScopeUse, value.Fits grant.capability →
        Covers matchers before.home grant.scope value → asked value) ∨
      Within matchers before grant := by
  constructor
  · intro h grant hgrant hstart hdenies
    obtain ⟨now, hnow, hstands, hlast⟩ := exists_last hstart before.grants
    have hcovered := (forall_covered_iff matchers before grant now (exempt grant.capability)
      asked).mp fun values hvalues => by
        refine h now hnow _ values (fun value hvalue => (hvalues value hvalue).1) ?_
        refine allows_iff.mpr ⟨hdenies, grant, hgrant, rfl, hstands, fun value hvalue => ?_⟩
        rw [hhome]
        exact (hvalues value hvalue).2
    rcases hcovered with ⟨hnot, wider, hwider, hsame, hlasts, hcovers⟩ | hasked
    · exact .inr ⟨hnot, wider, hwider, hsame, hlast wider hwider hlasts, hcovers⟩
    · exact .inl hasked
  · intro h now hnow family values hfits hallowed
    obtain ⟨hdenies, grant, hgrant, rfl, hstands, hcovers⟩ := allows_iff.mp hallowed
    rw [hhome] at hcovers
    have hstart : grant.Stands start := fun expiry hexpiry => by
      have := hstands expiry hexpiry
      omega
    rcases h grant hgrant hstart hdenies with
      ⟨hexempt, hasked⟩ | ⟨hnot, wider, hwider, hsame, hlast, hwithin⟩
    · exact .inr ⟨hexempt, fun value hvalue =>
        hasked value (hfits value hvalue) (hcovers value hvalue)⟩
    · refine .inl (allows_iff.mpr ⟨hnot, wider, hwider, hsame, fun expiry hexpiry => ?_,
        fun value hvalue => hwithin value (hfits value hvalue) (hcovers value hvalue)⟩)
      obtain ⟨ending, hending, hle⟩ := hlast expiry hexpiry
      have := hstands ending hending
      omega

/-- The second policy allows nothing more exactly when each of its grants is within one grant of the
first, or covers only what was asked about. -/
theorem nothingMore_iff (hhome : after.home = before.home) :
    NothingMore matchers capability used start before after ↔
      ∀ grant ∈ after.grants, grant.Stands start → ¬ after.Denies grant.capability →
        OnlyAsked matchers capability used before.home grant ∨ Within matchers before grant := by
  refine (forall_allows_iff_within matchers start hhome (· = capability) (Asked used)).trans ?_
  refine forall₄_congr fun grant _ _ _ => or_congr_left (and_congr_right fun hsame => ?_)
  rw [hsame]

/-- The second policy allows all that the first does exactly when each grant of the first is within
one grant of the second. -/
theorem nothingLess_iff (hhome : after.home = before.home) :
    NothingLess matchers start before after ↔
      ∀ grant ∈ before.grants, grant.Stands start → ¬ before.Denies grant.capability →
        Within matchers after grant := by
  have hiff := forall_allows_iff_within matchers start hhome.symm (fun _ => False) fun _ => False
  simpa only [NothingLess, false_and, or_false, false_or] using hiff

theorem within_of_mem (hgrant : grant ∈ policy.grants) (hdenies : ¬ policy.Denies grant.capability) :
    Within matchers policy grant :=
  ⟨hdenies, grant, hgrant, rfl, fun expiry hexpiry => ⟨expiry, hexpiry, le_refl _⟩,
    fun _ _ hcovers => hcovers⟩

end Compare

/-! ### The answer of the running instance -/

section Answer

variable {matchers : Matchers} {home : Option String} {capability : Capability}
  {used : List ScopeUse} {start : Int} {policy : Policy} {package : String}
  {permission : PermissionDescriptor} {duration : ConsentDuration} {answered : Option Members}

/-- Every scope key of the family was asked about, and the values that the answer keeps stand for
nothing but values that were. -/
structure NamesOnlyAsked (matchers : Matchers) (home : Option String) (capability : Capability)
    (used : List ScopeUse) (answered : Option Members) : Prop where
  every : ∀ declared ∈ capability.scopeKeys, askedValues used declared.name ≠ []
  literal : ∀ value : ScopeUse, value.Fits capability →
    entriesCover matchers home (keptItems (askedValues used value.key)
      (answered.bind (·.lookup value.key))) value = true → Asked used value

theorem exists_fits {declared : ScopeKey} (h : declared ∈ capability.scopeKeys) :
    ∃ value : ScopeUse, value.Fits capability ∧ value.key = declared.name := by
  by_cases hpath : declared.kind = .pathGlob
  · exact ⟨.path declared.name "", ⟨declared, h, rfl, hpath⟩, rfl⟩
  · by_cases hport : declared.kind = .portList
    · exact ⟨.port declared.name 0, ⟨declared, h, rfl, hport⟩, rfl⟩
    · exact ⟨.name declared.name "", ⟨declared, h, rfl, hpath, hport⟩, rfl⟩

theorem ScopeUse.Fits.exists_declared {value : ScopeUse} (h : value.Fits capability) :
    ∃ declared ∈ capability.scopeKeys, declared.name = value.key := by
  cases value with
  | path key value =>
    obtain ⟨declared, hdeclared, hname, -⟩ := h
    exact ⟨declared, hdeclared, hname⟩
  | name key value =>
    obtain ⟨declared, hdeclared, hname, -⟩ := h
    exact ⟨declared, hdeclared, hname⟩
  | port key value =>
    obtain ⟨declared, hdeclared, hname, -⟩ := h
    exact ⟨declared, hdeclared, hname⟩

/-- When the grant of an answer covers only what was asked about. -/
theorem onlyAsked_answerGrant_iff :
    OnlyAsked matchers capability used home
        (answerGrant (consentRequest package capability permission used) answered) ↔
      NamesOnlyAsked matchers home capability used answered := by
  have hcovers (value : ScopeUse) : Covers matchers home
      (answerGrant (consentRequest package capability permission used) answered).scope value ↔ _ :=
    covers_narrowed
  constructor
  · rintro ⟨-, hasked⟩
    refine ⟨fun declared hdeclared hnone => ?_, fun value hfits hkept => ?_⟩
    · obtain ⟨value, hfits, hkey⟩ := exists_fits hdeclared
      have hvalue := hasked value hfits ((hcovers value).mpr fun hne => absurd (hkey ▸ hnone) hne)
      rw [Asked, hkey, hnone] at hvalue
      cases hvalue
    · exact hasked value hfits ((hcovers value).mpr fun _ => hkept)
  · refine fun hnames => ⟨rfl, fun value hfits hvalue => ?_⟩
    obtain ⟨declared, hdeclared, hname⟩ := hfits.exists_declared
    exact hnames.literal value hfits
      ((hcovers value).mp hvalue (hname ▸ hnames.every declared hdeclared))

variable (start) in
/-- **What an answer adds to the running instance.** -/
theorem nothingMore_afterAnswer_iff :
    NothingMore matchers capability used start policy
        (afterAnswer policy (consentRequest package capability permission used) duration answered) ↔
      duration = .once ∨ policy.Denies capability ∨
        NamesOnlyAsked matchers policy.home capability used answered ∨
        Within matchers policy
          (answerGrant (consentRequest package capability permission used) answered) := by
  unfold afterAnswer
  split_ifs with hduration
  · simp only [hduration, true_or, iff_true]
    exact fun now _ family values _ hallowed => .inl hallowed
  · have hhome : (policy.grantFor (answerGrant (consentRequest package capability permission used)
        answered)).home = policy.home := rfl
    rw [nothingMore_iff hhome, ← @onlyAsked_answerGrant_iff _ _ _ _ package permission]
    simp only [hduration, false_or, grantFor, forall_mem_append,
      forall_mem_singleton]
    have hnew : (answerGrant (consentRequest package capability permission used)
        answered).Stands start := by simp [Grant.Stands, answerGrant]
    constructor
    · rintro ⟨-, hadded⟩
      by_cases hdenies : policy.Denies capability
      · exact .inl hdenies
      · exact .inr (hadded hnew hdenies)
    · refine fun h => ⟨fun grant hgrant _ hdenies => .inr (within_of_mem hgrant hdenies),
        fun _ hdenies => h.resolve_left hdenies⟩

theorem nothingLess_afterAnswer (request : ConsentRequest) :
    NothingLess matchers start policy (afterAnswer policy request duration answered) := by
  unfold afterAnswer
  split_ifs
  · exact fun now _ family values _ hallowed => hallowed
  · exact fun now _ family values _ hallowed => hallowed.grantFor _

end Answer

/-! ### The answer that is stored -/

section Stored

variable {matchers : Matchers} {home : Option String} {capability : Capability}
  {used : List ScopeUse} {start : Int} {policy : Policy} {package : Package} {host : Host}
  {permission : PermissionDescriptor} {duration : ConsentDuration} {answered : Option Members}

/-- The grants that a stored answer mints. -/
def keptMints (package : Package) (permission : PermissionDescriptor) (used : List ScopeUse) :
    List Grant :=
  mint package permission ((askedScope used).map AskedScope.members)

/-- A decision about another permission of the package denies a family. -/
def DeniedOtherwise (host : Host) (package : Package) (permission : PermissionDescriptor)
    (family : Capability) : Prop :=
  family ∈ deniedBy (host.decisions.filter fun decision => decision.permission ≠ permission.id)
    package.id

/-- What the stored grants have to be for an answer to store only what was asked and to lose
nothing. -/
structure StoresOnlyAsked (matchers : Matchers) (home : Option String) (capability : Capability)
    (used : List ScopeUse) (start : Int) (package : Package) (host : Host)
    (permission : PermissionDescriptor) : Prop where
  /-- What the templates mint covers only what was asked about, or is within what stands. -/
  minted : ∀ grant ∈ keptMints package permission used,
    ¬ DeniedOtherwise host package permission grant.capability →
      OnlyAsked matchers capability used home grant ∨
        Within matchers (host.policyFor package.id home start) grant
  /-- A denial that the answer replaces held back only what was asked about. -/
  lifted : ∀ grant ∈ (host.policyFor package.id home start).grants,
    grant.permission ≠ some permission.id →
    (host.policyFor package.id home start).Denies grant.capability →
    ¬ DeniedOtherwise host package permission grant.capability →
      OnlyAsked matchers capability used home grant
  /-- What the permission minted before is within what another one minted or the templates mint. -/
  replaced : ∀ grant ∈ (host.policyFor package.id home start).grants,
    grant.permission = some permission.id →
    ¬ (host.policyFor package.id home start).Denies grant.capability →
      ∃ wider : Grant, ((wider ∈ (host.policyFor package.id home start).grants ∧
          wider.permission ≠ some permission.id) ∨ wider ∈ keptMints package permission used) ∧
        wider.capability = grant.capability ∧ wider.Outlasts grant ∧
          ∀ value : ScopeUse, value.Fits grant.capability →
            Covers matchers home grant.scope value → Covers matchers home wider.scope value

/-- The policy of the shell before and after an answer is stored. -/
def keptPolicy (host : Host) (package : Package) (home : Option String)
    (permission : PermissionDescriptor) (capability : Capability) (used : List ScopeUse)
    (start : Int) : Policy :=
  (host.keep package (consentRequest package.id capability permission used) .always start).policyFor
    package.id home start

variable {grant : Grant}

theorem stands_of_mem_policyFor {plugin : String}
    (h : grant ∈ (host.policyFor plugin home start).grants) : grant.Stands start := by
  obtain ⟨held, -, ⟨-, -, hstands⟩, rfl⟩ := Host.mem_policyFor.mp h
  exact hstands

theorem stands_of_mem_keptMints (h : grant ∈ keptMints package permission used) :
    grant.Stands start := by
  obtain ⟨template, -, rfl⟩ := mem_map.mp h
  simp [Grant.Stands]

theorem mem_keptPolicy :
    grant ∈ (keptPolicy host package home permission capability used start).grants ↔
      (grant ∈ (host.policyFor package.id home start).grants ∧
        grant.permission ≠ some permission.id) ∨ grant ∈ keptMints package permission used :=
  Host.mem_policyFor_allow

theorem denies_keptPolicy {family : Capability} :
    (keptPolicy host package home permission capability used start).Denies family ↔
      DeniedOtherwise host package permission family :=
  Host.denies_policyFor_allow

theorem DeniedOtherwise.denies {family : Capability}
    (h : DeniedOtherwise host package permission family) :
    (host.policyFor package.id home start).Denies family := by
  obtain ⟨decision, hdecision, hfamily⟩ := mem_flatMap.mp h
  obtain ⟨hmem, hdenies⟩ := mem_filter.mp hdecision
  exact .inr (mem_flatMap.mpr
    ⟨decision, mem_filter.mpr ⟨(mem_filter.mp hmem).1, hdenies⟩, hfamily⟩)

/-- **What a stored answer adds and takes away.** -/
theorem stored_iff :
    (NothingMore matchers capability used start (host.policyFor package.id home start)
        (keptPolicy host package home permission capability used start) ∧
      NothingLess matchers start (host.policyFor package.id home start)
        (keptPolicy host package home permission capability used start)) ↔
      StoresOnlyAsked matchers home capability used start package host permission := by
  have hhome : (keptPolicy host package home permission capability used start).home =
      (host.policyFor package.id home start).home := rfl
  rw [nothingMore_iff hhome, nothingLess_iff hhome]
  simp only [mem_keptPolicy, denies_keptPolicy]
  constructor
  · rintro ⟨hmore, hless⟩
    refine ⟨fun grant hgrant hdenied => ?_, fun grant hgrant hother hdenies hdenied => ?_,
      fun grant hgrant hsame hdenies => ?_⟩
    · exact hmore grant (.inr hgrant) (stands_of_mem_keptMints hgrant) hdenied
    · refine (hmore grant (.inl ⟨hgrant, hother⟩) (stands_of_mem_policyFor hgrant)
        hdenied).resolve_right fun hwithin => ?_
      exact hwithin.1 hdenies
    · obtain ⟨-, wider, hwider, hfamily, hlast, hcovers⟩ :=
        hless grant hgrant (stands_of_mem_policyFor hgrant) hdenies
      exact ⟨wider, mem_keptPolicy.mp hwider, hfamily, hlast, hcovers⟩
  · intro h
    refine ⟨fun grant hgrant hstands hdenied => ?_, fun grant hgrant hstands hdenies => ?_⟩
    · rcases hgrant with ⟨hheld, hother⟩ | hminted
      · by_cases hdenies : (host.policyFor package.id home start).Denies grant.capability
        · exact .inl (h.lifted grant hheld hother hdenies hdenied)
        · exact .inr (within_of_mem hheld hdenies)
      · exact h.minted grant hminted hdenied
    · have hdenied : ¬ (keptPolicy host package home permission capability used start).Denies
          grant.capability := fun hdenied => hdenies (denies_keptPolicy.mp hdenied).denies
      by_cases hsame : grant.permission = some permission.id
      · obtain ⟨wider, hwider, hfamily, hlast, hcovers⟩ := h.replaced grant hgrant hsame hdenies
        exact ⟨hdenied, wider, mem_keptPolicy.mpr hwider, hfamily, hlast, hcovers⟩
      · exact within_of_mem (mem_keptPolicy.mpr (.inl ⟨hgrant, hsame⟩)) hdenied

/-! ### Consent -/

/-- A just-in-time consent keeps to what was asked: in the running instance, and in what the shell
stores for an answer that lasts. -/
structure ConsentKept (matchers : Matchers) (home : Option String) (start : Int) (policy : Policy)
    (host : Host) (package : Package) (permission : PermissionDescriptor) (capability : Capability)
    (used : List ScopeUse) (duration : ConsentDuration) (answered : Option Members) : Prop where
  more : NothingMore matchers capability used start policy
    (afterAnswer policy (consentRequest package.id capability permission used) duration answered)
  less : NothingLess matchers start policy
    (afterAnswer policy (consentRequest package.id capability permission used) duration answered)
  storedMore : NothingMore matchers capability used start (host.policyFor package.id home start)
    (keptPolicy host package home permission capability used start)
  storedLess : NothingLess matchers start (host.policyFor package.id home start)
    (keptPolicy host package home permission capability used start)

/-- **When a consent keeps to what was asked.** The running instance allows nothing beyond what was
asked about exactly when the answer is for once, the family is denied, the kept values name only
what was asked about under every key of the family, or a grant covers as much already; the shell
stores nothing beyond it exactly when the grants it mints and the ones it replaces are so. -/
theorem consentKept_iff :
    ConsentKept matchers home start policy host package permission capability used duration
        answered ↔
      (duration = .once ∨ policy.Denies capability ∨
        NamesOnlyAsked matchers policy.home capability used answered ∨
        Within matchers policy
          (answerGrant (consentRequest package.id capability permission used) answered)) ∧
      StoresOnlyAsked matchers home capability used start package host permission := by
  rw [← nothingMore_afterAnswer_iff start, ← stored_iff]
  exact ⟨fun h => ⟨h.more, h.storedMore, h.storedLess⟩,
    fun ⟨hmore, hstoredMore, hstoredLess⟩ =>
      ⟨hmore, nothingLess_afterAnswer _, hstoredMore, hstoredLess⟩⟩

/-- The shell without grants or decisions. -/
def emptyHost : Host :=
  ⟨[], [], [], 0, by simp, by simp⟩

/-- The use of secrets, decided just in time. -/
def secretsPermission : PermissionDescriptor :=
  ⟨"secrets", .secretUse, "Use secrets", .jit, false, .sensitiveRead,
    [⟨.secretUse, some .runtimeDerived⟩]⟩

/-- A session answer about the secret named `db*` allows the secret `db-root` too. -/
theorem not_consentKept_pattern :
    ¬ ConsentKept ⟨fun _ => "", fun _ => none⟩ none 0 ⟨[], [], [], none⟩ emptyHost
      ⟨"dev.example.echo", []⟩ secretsPermission .secretUse [.name "secrets" "db*"] .session
      none := by
  intro h
  have hadded := h.more 0 (le_refl _) .secretUse [.name "secrets" "db-root"] (by
    rw [forall_mem_singleton]
    exact ⟨.broker "secrets" .nameList, by decide, rfl, by decide, by decide⟩)
  rcases hadded ⟨_, rfl⟩ with hallowed | ⟨-, hasked⟩
  · obtain ⟨-, grant, hgrant, -⟩ := allows_iff.mp hallowed
    cases hgrant
  · have hvalue := hasked _ (mem_singleton.mpr rfl)
    revert hvalue
    unfold Asked
    decide +kernel

end Stored

end OnoSendai.Kuang
