import OnoSendai.Kuang.Check

/-!
# Decisions about permissions

The other operations of the permission layer (`ono_cli::kuang_permissions`) beside `allow`, and runs
of all of them.
-/

namespace OnoSendai.Kuang

open List hiding set

namespace Host

/-- The decision about a permission of a package. -/
def decision (host : Host) (plugin permission : String) : Option Decision :=
  host.decisions.find? fun decision =>
    decision.plugin = plugin && decision.permission = permission

/-- Whether a permission of a package is denied. -/
def isDenied (host : Host) (plugin permission : String) : Bool :=
  (host.decision plugin permission).any fun decision => decision.decision = "deny"

/-- Forgets the decision about a permission. -/
def forgetDecision (host : Host) (plugin permission : String) : Host :=
  { host with
    decisions := host.decisions.filter fun existing =>
      !(existing.plugin = plugin && existing.permission = permission) }

/-- Revokes what stands of the grants a permission minted. -/
def revokeMinted (host : Host) (plugin permission : String) (now : Int) : Host :=
  (host.grantsOfPermission plugin permission now).foldl (fun host id => host.revoke id now) host

/-- Executes a `deny`: what the permission minted is revoked, and the denial is recorded. -/
def deny (host : Host) (package : Package) (descriptor : PermissionDescriptor) (now : Int) : Host :=
  (host.revokeMinted package.id descriptor.id now).recordDecision
    { plugin := package.id
      permission := descriptor.id
      decision := "deny"
      duration := "always"
      grants := []
      capabilities := descriptor.capabilities.map Capability.id }

/-- Executes an `ask`: the decision, its grants and its remembered denials are cleared. -/
def ask (host : Host) (package : Package) (descriptor : PermissionDescriptor) (now : Int) : Host :=
  ((host.revokeMinted package.id descriptor.id now).forgetDecision package.id
    descriptor.id).forgetDenials package.id descriptor.id

/-- Applies a profile: the automatic permissions that are not denied are allowed, and then those
the profile names. -/
def applyProfile (host : Host) (package : Package) (set : PermissionSet) (profile : AccessProfile)
    (duration : String) (now : Int) : Host :=
  let allowing (host : Host) (descriptor : PermissionDescriptor) : Host :=
    host.allow package descriptor duration none now
  let included := set.automatic.foldl (fun host descriptor =>
    if host.isDenied package.id descriptor.id then host else allowing host descriptor) host
  ((set.profileDescriptors profile).filter (!·.isAutomatic)).foldl allowing included

/-- Mints the session grants of the automatic permissions that are not denied, where some family of
theirs has no grant. -/
def ensureAutomatic (host : Host) (package : Package) (set : PermissionSet) (now : Int) : Host :=
  set.automatic.foldl (fun host descriptor =>
    if host.isDenied package.id descriptor.id then host
    else if descriptor.grants.all fun template =>
      (host.standingGrants package.id now).any (·.capability = template.capability) then host
    else descriptor.grants.foldl (mintTemplate package descriptor "session" none) host) host

end Host

/-- A change of what is decided about a package. -/
inductive PermissionChange
  | allow (package : Package) (descriptor : PermissionDescriptor) (duration : String)
      (override : Option Members) (now : Int)
  | deny (package : Package) (descriptor : PermissionDescriptor) (now : Int)
  | ask (package : Package) (descriptor : PermissionDescriptor) (now : Int)
  | applyProfile (package : Package) (set : PermissionSet) (profile : AccessProfile)
      (duration : String) (now : Int)
  | ensureAutomatic (package : Package) (set : PermissionSet) (now : Int)

namespace PermissionChange

/-- A change that may mint grants for a permission. -/
def Mints (plugin permission : String) : PermissionChange → Prop
  | allow package descriptor .. => package.id = plugin ∧ descriptor.id = permission
  | deny .. | ask .. => False
  | applyProfile package set profile .. =>
    package.id = plugin ∧
      ∃ descriptor ∈ set.automatic ++ set.profileDescriptors profile, descriptor.id = permission
  | ensureAutomatic package set _ =>
    package.id = plugin ∧ ∃ descriptor ∈ set.automatic, descriptor.id = permission

/-- The package a change is about. -/
def package : PermissionChange → Package
  | allow package .. | deny package .. | ask package .. | applyProfile package ..
  | ensureAutomatic package .. => package

/-- A change decides anew about a denied permission: it allows it, asks about it, denies less of
it, or applies a profile that names it. -/
def Reopens (plugin permission : String) (capabilities : List Capability) :
    PermissionChange → Prop
  | allow package descriptor .. | ask package descriptor _ =>
    package.id = plugin ∧ descriptor.id = permission
  | deny package descriptor _ =>
    package.id = plugin ∧ descriptor.id = permission ∧ ¬capabilities ⊆ descriptor.capabilities
  | applyProfile package set profile .. =>
    package.id = plugin ∧
      ∃ descriptor ∈ set.profileDescriptors profile,
        descriptor.isAutomatic = false ∧ descriptor.id = permission
  | ensureAutomatic .. => False

end PermissionChange

namespace Host

/-- Performs a change. -/
def perform (host : Host) : PermissionChange → Host
  | .allow package descriptor duration override now =>
    host.allow package descriptor duration override now
  | .deny package descriptor now => host.deny package descriptor now
  | .ask package descriptor now => host.ask package descriptor now
  | .applyProfile package set profile duration now =>
    host.applyProfile package set profile duration now
  | .ensureAutomatic package set now => host.ensureAutomatic package set now

/-! ### What a change leaves alone -/

/-- Two hosts hold the same of some permissions. -/
def Same (about : String → String → Bool) (host next : Host) : Prop :=
  next.grants.filter (fun held => held.permission.all (about held.plugin)) =
      host.grants.filter (fun held => held.permission.all (about held.plugin)) ∧
    next.decisions.filter (fun decision => about decision.plugin decision.permission) =
      host.decisions.filter fun decision => about decision.plugin decision.permission

section Same

variable {about : String → String → Bool} {host next last : Host} {package : Package}
  {descriptor : PermissionDescriptor} {plugin permission duration : String}
  {override : Option Members} {now : Int} {decided : Decision}

theorem Same.trans (h : Same about host next) (h' : Same about next last) : Same about host last :=
  ⟨h'.1.trans h.1, h'.2.trans h.2⟩

theorem same_foldl {α : Type} {step : Host → α → Host} {items : List α}
    (h : ∀ item ∈ items, ∀ host, Same about host (step host item)) :
    Same about host (items.foldl step host) :=
  foldlRecOn items step ⟨rfl, rfl⟩ fun _ hsame item hitem => hsame.trans (h item hitem _)

theorem same_revokeMinted (h : about plugin permission = false) :
    Same about host (host.revokeMinted plugin permission now) := by
  refine ⟨?_, by rw [revokeMinted, decisions_foldl_revoke]⟩
  rw [revokeMinted, grants_foldl_revoke, filter_map]
  have hkeep : ((fun held : HeldGrant => held.permission.all (about held.plugin)) ∘ fun held =>
      if held.id ∈ host.grantsOfPermission plugin permission now ∧ held.revokedAt = none then
        { held with revokedAt := some now } else held) =
      fun held => held.permission.all (about held.plugin) := by
    funext held
    simp only [Function.comp_apply]
    split_ifs <;> rfl
  rw [hkeep]
  refine (map_congr_left fun held hheld => if_neg fun hrevoked => ?_).trans (map_id _)
  obtain ⟨hmem, habout⟩ := mem_filter.1 hheld
  obtain ⟨⟨hplugin, -⟩, hpermission⟩ := (id_mem_grantsOfPermission hmem).1 hrevoked.1
  simp [hpermission, hplugin, h] at habout

theorem same_forgetDecision (h : about plugin permission = false) :
    Same about host (host.forgetDecision plugin permission) := by
  refine ⟨rfl, ?_⟩
  rw [forgetDecision, filter_filter]
  refine filter_congr fun existing _ => ?_
  by_cases hkey : existing.plugin = plugin ∧ existing.permission = permission
  · simp [hkey.1, hkey.2, h]
  · simp [not_and_or.1 hkey]

theorem same_recordDecision (h : about decided.plugin decided.permission = false) :
    Same about host (host.recordDecision decided) := by
  refine (same_forgetDecision h).trans ⟨rfl, ?_⟩
  simp [recordDecision, forgetDecision, h]

theorem same_mintTemplates (h : about package.id descriptor.id = false)
    (templates : List GrantTemplate) :
    Same about host
      (templates.foldl (mintTemplate package descriptor duration override) host) :=
  same_foldl fun template _ host => ⟨by simp [mintTemplate, Host.grant, h], rfl⟩

theorem same_allow (h : about package.id descriptor.id = false) :
    Same about host (host.allow package descriptor duration override now) := by
  have hcleared : Same about host (host.clear package.id descriptor.id now) :=
    same_revokeMinted h
  exact (hcleared.trans (same_mintTemplates h descriptor.grants)).trans (same_recordDecision h)

theorem same_deny (h : about package.id descriptor.id = false) :
    Same about host (host.deny package descriptor now) :=
  (same_revokeMinted h).trans (same_recordDecision h)

theorem same_ask (h : about package.id descriptor.id = false) :
    Same about host (host.ask package descriptor now) := by
  have hrevoked : Same about host (host.revokeMinted package.id descriptor.id now) :=
    same_revokeMinted h
  have hforgotten := hrevoked.trans (same_forgetDecision h)
  exact hforgotten

theorem policyFor_of_same {home : Option String} {later : Int}
    (h : Same (fun other _ => other = plugin) host next) :
    next.policyFor plugin home later = host.policyFor plugin home later := by
  have hstanding (host : Host) : host.standingGrants plugin later =
      (host.grants.filter fun held => held.permission.all fun _ => held.plugin = plugin).filter
        fun held => held.plugin = plugin && held.standsAt later := by
    rw [standingGrants, filter_filter]
    refine filter_congr fun held _ => ?_
    by_cases hplugin : held.plugin = plugin <;> simp [hplugin]
  have hdenied (decisions : List Decision) : deniedBy decisions plugin =
      deniedBy (decisions.filter fun decision => decision.plugin = plugin) plugin := by
    rw [deniedBy, deniedBy, filter_filter]
    congr 1
    refine filter_congr fun decision _ => ?_
    by_cases hplugin : decision.plugin = plugin <;> simp [hplugin]
  rw [policyFor, policyFor, hstanding, hstanding host, h.1, hdenied, hdenied host.decisions]
  simp only [h.2]

theorem same_perform (change : PermissionChange) (h : change.package.id ≠ plugin) :
    Same (fun other _ => other = plugin) host (host.perform change) := by
  have habout : decide (change.package.id = plugin) = false := by simpa using h
  cases change with
  | allow package descriptor duration override now => exact same_allow habout
  | deny package descriptor now => exact same_deny habout
  | ask package descriptor now => exact same_ask habout
  | applyProfile package set profile duration now =>
    refine (same_foldl fun descriptor _ host => ?_).trans
      (same_foldl fun descriptor _ host => same_allow habout)
    split_ifs
    · exact ⟨rfl, rfl⟩
    · exact same_allow habout
  | ensureAutomatic package set now =>
    refine same_foldl fun descriptor _ host => ?_
    split_ifs
    · exact ⟨rfl, rfl⟩
    · exact ⟨rfl, rfl⟩
    · exact same_mintTemplates habout _

/-- **Packages do not reach into each other.** After any run of decisions, none of which is about a
package, the policy of that package is what it was, at every instant. -/
theorem policyFor_decisions {changes : List PermissionChange} {home : Option String} {later : Int}
    (h : ∀ change ∈ changes, change.package.id ≠ plugin) :
    (changes.foldl Host.perform host).policyFor plugin home later =
      host.policyFor plugin home later :=
  policyFor_of_same (same_foldl fun change hchange _ => same_perform change (h change hchange))

theorem policyFor_decisions_mail :
    ([.deny ⟨"disks", []⟩ secretsPermission 1].foldl Host.perform
        (emptyHost.grant "mail" .secretUse none "always" none none)).policyFor "mail" none 2 =
      (emptyHost.grant "mail" .secretUse none "always" none none).policyFor "mail" none 2 :=
  policyFor_decisions (by simp [PermissionChange.package])

end Same

/-! ### What a denial holds against -/

/-- The one decision about a permission denies some capabilities at least. -/
def Denying (host : Host) (plugin permission : String) (capabilities : List Capability) : Prop :=
  ∃ denial : Decision, denial.decision = "deny" ∧
    (∀ capability ∈ capabilities, capability.id ∈ denial.capabilities) ∧
      host.decisions.filter (fun decision =>
        decision.plugin = plugin && decision.permission = permission) = [denial]

section Denying

variable {host next : Host} {package : Package} {descriptor : PermissionDescriptor}
  {plugin permission duration : String} {capabilities : List Capability}
  {override : Option Members} {now : Int} {change : PermissionChange}

theorem Denying.same (h : host.Denying plugin permission capabilities)
    (hsame : Same (fun other asked => other = plugin && asked = permission) host next) :
    next.Denying plugin permission capabilities := by
  obtain ⟨denial, hdeny, hcapabilities, hdecisions⟩ := h
  exact ⟨denial, hdeny, hcapabilities, hsame.2.trans hdecisions⟩

theorem Denying.isDenied (h : host.Denying plugin permission capabilities) :
    host.isDenied plugin permission = true := by
  obtain ⟨denial, hdeny, -, hdecisions⟩ := h
  rw [Host.isDenied, decision, ← head?_filter, hdecisions]
  simp [hdeny]

theorem denying_deny (h : capabilities ⊆ descriptor.capabilities) :
    (host.deny package descriptor now).Denying package.id descriptor.id capabilities := by
  refine ⟨⟨package.id, descriptor.id, "deny", "always", [], descriptor.capabilities.map (·.id)⟩,
    rfl, fun capability hmem => mem_map_of_mem (h hmem), ?_⟩
  simp [deny, recordDecision, filter_append, filter_filter]

theorem Denying.allow (h : host.Denying plugin permission capabilities)
    (hapart : ¬(package.id = plugin ∧ descriptor.id = permission)) :
    (host.allow package descriptor duration override now).Denying plugin permission capabilities :=
  h.same (same_allow (by simpa using hapart))

theorem Denying.foldl {α : Type} {step : Host → α → Host} {items : List α}
    (h : host.Denying plugin permission capabilities)
    (hstep : ∀ host : Host, host.Denying plugin permission capabilities → ∀ item ∈ items,
      (step host item).Denying plugin permission capabilities) :
    (items.foldl step host).Denying plugin permission capabilities :=
  foldlRecOn (motive := (·.Denying plugin permission capabilities)) items step h hstep

/-- A change that does not reopen the permission keeps the denial. -/
theorem Denying.perform (h : host.Denying plugin permission capabilities)
    (hclosed : ¬change.Reopens plugin permission capabilities) :
    (host.perform change).Denying plugin permission capabilities := by
  cases change with
  | allow package descriptor duration override now => exact h.allow hclosed
  | deny package descriptor now =>
    by_cases hkey : package.id = plugin ∧ descriptor.id = permission
    · obtain ⟨rfl, rfl⟩ := hkey
      exact denying_deny (not_not.1 fun hfewer => hclosed ⟨rfl, rfl, hfewer⟩)
    · exact h.same (same_deny (by simpa using hkey))
  | ask package descriptor now => exact h.same (same_ask (by simpa [PermissionChange.Reopens] using hclosed))
  | applyProfile package set profile duration now =>
    refine (h.foldl fun host h descriptor _ => ?_).foldl fun host h descriptor hmem =>
      h.allow fun hkey => ?_
    · split_ifs with hdenied
      · exact h
      · exact h.allow fun hkey => hdenied (hkey.1 ▸ hkey.2 ▸ h.isDenied)
    · obtain ⟨hnamed, hautomatic⟩ := mem_filter.1 hmem
      exact hclosed ⟨hkey.1, descriptor, hnamed, by simpa using hautomatic, hkey.2⟩
  | ensureAutomatic package set now =>
    refine h.foldl fun host h descriptor _ => ?_
    split_ifs with hdenied hheld
    · exact h
    · exact h
    · have hnot : ¬(package.id = plugin ∧ descriptor.id = permission) := fun hkey =>
        hdenied (hkey.1 ▸ hkey.2 ▸ h.isDenied)
      exact h.same (same_mintTemplates (by simpa using hnot) _)

theorem Denying.not_allows {matchers : Matchers} {capability : Capability} {home : Option String}
    {used : List ScopeUse} {instant : Int} (h : host.Denying plugin permission capabilities)
    (hmem : capability ∈ capabilities) :
    ¬(host.policyFor plugin home now).Allows matchers capability used instant := by
  obtain ⟨denial, hdeny, hcapabilities, hdecisions⟩ := h
  have hdenial : denial ∈ host.decisions.filter fun decision =>
      decision.plugin = plugin && decision.permission = permission := by simp [hdecisions]
  obtain ⟨hstored, hkey⟩ := mem_filter.1 hdenial
  simp only [Bool.and_eq_true, decide_eq_true_eq] at hkey
  refine fun hallowed => (Policy.allows_iff.1 hallowed).1 (.inr ?_)
  refine mem_flatMap.2 ⟨denial, mem_filter.2 ⟨hstored, by simp [hkey, hdeny]⟩, ?_⟩
  exact mem_filterMap.2 ⟨capability.id, hcapabilities capability hmem, fromId_id capability⟩

/-- **A denial holds.** After a permission was denied, and any run of decisions that do not reopen
it, no use of a capability of it is allowed, at any instant and whatever else is granted. -/
theorem not_allows_decisions {changes : List PermissionChange} {matchers : Matchers}
    {capability : Capability} {home : Option String} {used : List ScopeUse} {later instant : Int}
    (h : ∀ change ∈ changes,
      ¬change.Reopens package.id descriptor.id descriptor.capabilities)
    (hmem : capability ∈ descriptor.capabilities) :
    ¬((changes.foldl Host.perform (host.deny package descriptor now)).policyFor package.id home
      later).Allows matchers capability used instant :=
  ((denying_deny (List.Subset.refl _)).foldl fun _ hdenying change hchange =>
    hdenying.perform (h change hchange)).not_allows hmem

theorem not_allows_decisions_secrets :
    ¬(([.applyProfile ⟨"mail", []⟩ ⟨[secretsPermission], []⟩ ⟨"minimal", []⟩ "always" 2].foldl
      Host.perform (emptyHost.deny ⟨"mail", []⟩ secretsPermission 1)).policyFor "mail" none
        3).Allows ⟨fun _ => "", fun _ => none⟩ .secretUse [] 3 :=
  not_allows_decisions
    (by simp [PermissionChange.Reopens, PermissionSet.profileDescriptors]) (by decide)

end Denying

/-! ### What is left of a withdrawn permission -/

/-- No grant that a permission minted stands at an instant. -/
def Withdrawn (host : Host) (plugin permission : String) (now : Int) : Prop :=
  ∀ held ∈ host.grants, held.plugin = plugin → held.permission = some permission →
    held.revokedAt = none → ¬held.grant.Stands now

section Withdrawn

variable {host next : Host} {package : Package} {descriptor : PermissionDescriptor}
  {plugin permission : String} {start now : Int} {change : PermissionChange}

theorem Withdrawn.same (h : host.Withdrawn plugin permission start)
    (hsame : Same (fun other asked => other = plugin && asked = permission) host next) :
    next.Withdrawn plugin permission start := by
  intro held hheld hplugin hpermission
  have hkept : held ∈ next.grants.filter fun held =>
      held.permission.all fun asked => held.plugin = plugin && asked = permission :=
    mem_filter.2 ⟨hheld, by simp [hplugin, hpermission]⟩
  rw [hsame.1] at hkept
  exact h held (mem_filter.1 hkept).1 hplugin hpermission

theorem mem_grants_revokeMinted {held : HeldGrant} (hrevoked : held.revokedAt = none) :
    held ∈ (host.revokeMinted plugin permission now).grants ↔
      held ∈ host.grants ∧ held.id ∉ host.grantsOfPermission plugin permission now := by
  rw [revokeMinted, grants_foldl_revoke, mem_map]
  constructor
  · rintro ⟨old, hold, rfl⟩
    split_ifs at hrevoked ⊢ with hminted
    exact ⟨hold, fun hid => hminted ⟨hid, hrevoked⟩⟩
  · rintro ⟨hheld, hid⟩
    exact ⟨held, hheld, if_neg fun hminted => hid hminted.1⟩

theorem withdrawn_revokeMinted :
    (host.revokeMinted plugin permission now).Withdrawn plugin permission now := by
  intro held hheld hplugin hpermission hrevoked hstands
  obtain ⟨hold, hid⟩ := (mem_grants_revokeMinted hrevoked).1 hheld
  refine hid ((id_mem_grantsOfPermission hold).2 ⟨⟨hplugin, ?_⟩, hpermission⟩)
  exact standsAt_iff.2 ⟨hrevoked, hstands⟩

theorem Withdrawn.revokeMinted {other asked : String}
    (h : host.Withdrawn plugin permission start) :
    (host.revokeMinted other asked now).Withdrawn plugin permission start :=
  fun held hheld hplugin hpermission hrevoked =>
    h held ((mem_grants_revokeMinted hrevoked).1 hheld).1 hplugin hpermission hrevoked

theorem Withdrawn.perform (h : host.Withdrawn plugin permission start)
    (hmints : ¬change.Mints plugin permission) :
    (host.perform change).Withdrawn plugin permission start := by
  cases change with
  | allow package descriptor duration override now =>
    exact h.same (same_allow (by simpa [PermissionChange.Mints] using hmints))
  | deny package descriptor now => exact h.revokeMinted
  | ask package descriptor now => exact h.revokeMinted
  | applyProfile package set profile duration now =>
    have hapart : ∀ descriptor ∈ set.automatic ++ set.profileDescriptors profile,
        (package.id = plugin && descriptor.id = permission) = false := fun descriptor hmem => by
      have hnot : ¬(package.id = plugin ∧ descriptor.id = permission) := fun hkey =>
        hmints ⟨hkey.1, descriptor, hmem, hkey.2⟩
      simpa using hnot
    refine h.same ((same_foldl fun descriptor hmem host => ?_).trans
      (same_foldl fun descriptor hmem host => same_allow (hapart descriptor ?_)))
    · split_ifs
      · exact ⟨rfl, rfl⟩
      · exact same_allow (hapart descriptor (mem_append_left _ hmem))
    · exact mem_append_right _ (mem_filter.1 hmem).1
  | ensureAutomatic package set now =>
    refine h.same (same_foldl fun descriptor hmem host => ?_)
    split_ifs
    · exact ⟨rfl, rfl⟩
    · exact ⟨rfl, rfl⟩
    · have hnot : ¬(package.id = plugin ∧ descriptor.id = permission) := fun hkey =>
        hmints ⟨hkey.1, descriptor, hmem, hkey.2⟩
      exact same_mintTemplates (by simpa using hnot) _

/-- **A withdrawn permission leaves no authority behind.** After a permission was denied or asked
about again, and any run of decisions that mint nothing for it, no standing grant of the package
comes from it, at no later instant. -/
theorem not_mem_policyFor_withdrawn {changes : List PermissionChange} {withdrawal : PermissionChange}
    {home : Option String} {later : Int}
    (hwithdrawal : withdrawal = .deny package descriptor now ∨
      withdrawal = .ask package descriptor now)
    (h : ∀ change ∈ changes, ¬change.Mints package.id descriptor.id) (hlater : now ≤ later) :
    ∀ grant ∈ ((changes.foldl Host.perform (host.perform withdrawal)).policyFor package.id home
      later).grants, grant.permission ≠ some descriptor.id := by
  have hstart : (host.perform withdrawal).Withdrawn package.id descriptor.id now := by
    rcases hwithdrawal with rfl | rfl <;> exact withdrawn_revokeMinted
  have hrun : (changes.foldl Host.perform (host.perform withdrawal)).Withdrawn package.id
      descriptor.id now :=
    foldlRecOn (motive := (·.Withdrawn package.id descriptor.id now)) changes Host.perform
      hstart fun _ hwithdrawn change hchange => hwithdrawn.perform (h change hchange)
  rintro _ hgrant hpermission
  obtain ⟨held, hheld, ⟨hplugin, hrevoked, hstands⟩, rfl⟩ := mem_policyFor.1 hgrant
  exact hrun held hheld hplugin hpermission hrevoked fun expiry hexpiry =>
    hlater.trans_lt (hstands expiry hexpiry)

theorem not_mem_policyFor_withdrawn_secrets :
    ((([.deny ⟨"mail", []⟩ secretsPermission 2].foldl Host.perform
      ((emptyHost.allow ⟨"mail", []⟩ secretsPermission "always" none 0).perform
        (.ask ⟨"mail", []⟩ secretsPermission 1))).policyFor "mail" none 3).grants.filter
      fun grant => grant.permission = some "secrets") = [] :=
  filter_eq_nil_iff.2 fun grant hgrant hpermission =>
    not_mem_policyFor_withdrawn (.inr rfl) (by simp [PermissionChange.Mints]) (by decide) grant
      hgrant (of_decide_eq_true hpermission)

end Withdrawn

end Host

end OnoSendai.Kuang
