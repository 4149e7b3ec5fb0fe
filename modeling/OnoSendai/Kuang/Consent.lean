import OnoSendai.Kuang.Permission
import OnoSendai.Lib.Buckets

/-!
# Just-in-time consent

The question the broker asks when a use is not covered and the permission layer decides the family
just in time (`ono_kuang_supervisor::supervisor`, `ono_cli::kuang_permissions`): the request carries
the values of the call, the answer becomes a grant of the running instance, and the shell keeps an
answer that lasts by revoking what the permission minted and minting its grants again.
-/

namespace OnoSendai.Kuang

open List

/-! ### The question -/

/-- The scope of a request: under each key the values that are asked about. -/
abbrev AskedScope : Type :=
  List (String × List String)

namespace AskedScope

/-- Adds a value under a key. -/
def push : AskedScope → String → String → AskedScope
  | [], key, value => [(key, [value])]
  | (entry, values) :: rest, key, value =>
    if entry = key then (entry, values ++ [value]) :: rest
    else (entry, values) :: push rest key value

/-- The scope as a JSON object. -/
def members (scope : AskedScope) : Members :=
  scope.map fun (key, values) => (key, .array (values.map .string))

end AskedScope

/-- The scope that the values of a call ask for; none where the call uses no value. -/
def askedScope (used : List ScopeUse) : Option AskedScope :=
  match used.foldl (fun scope value => AskedScope.push scope value.key value.display) [] with
  | [] => none
  | scope => some scope

/-- What the broker asks about: the package, the capability its call needs, the permission that
governs it, and the values the call will use. -/
structure ConsentRequest where
  package : String
  capability : Capability
  permission : PermissionDescriptor
  uses : List (String × String)
  scope : Option AskedScope

/-- The request for one use. -/
def consentRequest (package : String) (capability : Capability) (permission : PermissionDescriptor)
    (used : List ScopeUse) : ConsentRequest where
  package := package
  capability := capability
  permission := permission
  uses := used.map fun value => (value.key, value.display)
  scope := askedScope used

/-! ### The answer -/

/-- How long a yes lasts. -/
inductive ConsentDuration
  | once
  | session
  | always
deriving DecidableEq

/-- The word of a duration. -/
def ConsentDuration.word : ConsentDuration → String
  | once => "once"
  | session => "session"
  | always => "always"

/-- Whether a JSON value is a text. -/
def isText (text : String) : Json → Bool
  | .string other => other = text
  | _ => false

/-- The values asked about under a key that the answer names too; all of them where the answer does
not have the key. -/
def keptItems (asked : List String) : Option Json → List String
  | some (.array items) => asked.filter fun text => items.any (isText text)
  | some other => asked.filter fun text => isText text other
  | none => asked

/-- The answered scope, on the keys that were asked about. -/
def narrowed (asked : Option AskedScope) (answered : Option Members) : Option Members :=
  match asked, answered with
  | none, _ => none
  | some asked, none => some asked.members
  | some asked, some answered =>
    some (AskedScope.members
      (asked.map fun (key, values) => (key, keptItems values (answered.lookup key))))

/-- The grant of an answer that allows. -/
def answerGrant (request : ConsentRequest) (answered : Option Members) : Grant where
  capability := request.capability
  scope := narrowed request.scope answered
  expiresAt := none
  permission := some request.permission.id

/-- The policy of the running instance after an answer that allows. -/
def afterAnswer (policy : Policy) (request : ConsentRequest) (duration : ConsentDuration)
    (answered : Option Members) : Policy :=
  if duration = .once then policy else policy.grantFor (answerGrant request answered)

/-! ### The grants and decisions of the shell -/

/-- A capability grant of the shell. -/
structure HeldGrant where
  id : Nat
  plugin : String
  capability : Capability
  scope : Option Members
  duration : String
  expiresAt : Option Int
  revokedAt : Option Int
  permission : Option String

namespace HeldGrant

/-- Whether a grant still answers. -/
def standsAt (held : HeldGrant) (now : Int) : Bool :=
  held.revokedAt.isNone && held.expiresAt.all (now < ·)

/-- What the broker is told of a grant. -/
def grant (held : HeldGrant) : Grant :=
  ⟨held.capability, held.scope, held.expiresAt, held.permission⟩

end HeldGrant

/-- A decision about a permission. -/
structure Decision where
  plugin : String
  permission : String
  decision : String
  duration : String
  grants : List Nat
  capabilities : List String

/-- The capabilities that the decisions about a package deny. -/
def deniedBy (decisions : List Decision) (plugin : String) : List Capability :=
  (decisions.filter fun decision => decision.plugin = plugin && decision.decision = "deny").flatMap
    fun decision => decision.capabilities.filterMap fun id =>
      Capability.all.find? fun capability => capability.id = id

/-- The host: the grants, each with an identity of its own, the decisions, and the denials
remembered for the session. -/
structure Host where
  grants : List HeldGrant
  decisions : List Decision
  sessionDenials : List (String × String × String)
  minted : Nat
  id_le : ∀ held ∈ grants, held.id ≤ minted
  id_nodup : (grants.map HeldGrant.id).Nodup

namespace Host

/-- The grants that stand for a package, oldest first. -/
def standingGrants (host : Host) (plugin : String) (now : Int) : List HeldGrant :=
  host.grants.filter fun held => held.plugin = plugin && held.standsAt now

/-- The broker policy the standing grants of a package amount to. -/
def policyFor (host : Host) (plugin : String) (home : Option String) (now : Int) : Policy where
  systemDenies := []
  userDenies := deniedBy host.decisions plugin
  grants := (host.standingGrants plugin now).map HeldGrant.grant
  home := home

/-- A grant with its end, where it is the one with the identity and has none yet. -/
def revoked (id : Nat) (now : Int) (held : HeldGrant) : HeldGrant :=
  if held.id = id ∧ held.revokedAt = none then { held with revokedAt := some now } else held

@[simp]
theorem revoked_id (id : Nat) (now : Int) (held : HeldGrant) : (revoked id now held).id = held.id := by
  unfold revoked
  split_ifs <;> rfl

/-- Revokes the grant with an identity. -/
def revoke (host : Host) (id : Nat) (now : Int) : Host where
  grants := host.grants.map (revoked id now)
  decisions := host.decisions
  sessionDenials := host.sessionDenials
  minted := host.minted
  id_le := by simpa using host.id_le
  id_nodup := by simpa [Function.comp_def] using host.id_nodup

/-- Records a grant. -/
def grant (host : Host) (plugin : String) (capability : Capability) (scope : Option Members)
    (duration : String) (expiresAt : Option Int) (permission : Option String) : Host where
  grants := host.grants ++
    [⟨host.minted + 1, plugin, capability, scope, duration, expiresAt, none, permission⟩]
  decisions := host.decisions
  sessionDenials := host.sessionDenials
  minted := host.minted + 1
  id_le := by
    intro held hheld
    rcases mem_append.mp hheld with hold | hnew
    · exact (host.id_le held hold).trans (Nat.le_succ _)
    · rw [mem_singleton.mp hnew]
  id_nodup := by
    rw [map_append, map_singleton, nodup_append]
    refine ⟨host.id_nodup, nodup_singleton _, fun id hid other hother => ?_⟩
    obtain ⟨held, hheld, rfl⟩ := mem_map.mp hid
    have hle := host.id_le held hheld
    rw [mem_singleton.mp hother]
    show held.id ≠ host.minted + 1
    omega

/-- Forgets the denials of a permission that are remembered for the session. -/
def forgetDenials (host : Host) (plugin permission : String) : Host :=
  { host with
    sessionDenials := host.sessionDenials.filter fun (heldPlugin, heldPermission, _) =>
      !(heldPlugin = plugin && heldPermission = permission) }

/-- Records or replaces a decision. -/
def recordDecision (host : Host) (decision : Decision) : Host :=
  { host with
    decisions := (host.decisions.filter fun existing =>
      !(existing.plugin = decision.plugin && existing.permission = decision.permission)) ++
        [decision] }

/-- The grants that stand for a package and were minted by a permission. -/
def grantsOfPermission (host : Host) (plugin permission : String) (now : Int) : List Nat :=
  ((host.standingGrants plugin now).filter fun held => held.permission = some permission).map
    HeldGrant.id

/-- The word a decision carries. -/
def durationWord (duration : String) : String :=
  if duration = "session" then "session" else "always"

/-- Mints the grant of one template. -/
def mintTemplate (package : Package) (descriptor : PermissionDescriptor) (duration : String)
    (override : Option Members) (host : Host) (template : GrantTemplate) : Host :=
  host.grant package.id template.capability (resolveScope package template override) duration none
    (some descriptor.id)

/-- Revokes what a permission minted, and forgets its remembered denials. -/
def clear (host : Host) (plugin permission : String) (now : Int) : Host :=
  ((host.grantsOfPermission plugin permission now).foldl (fun host id => host.revoke id now)
    host).forgetDenials plugin permission

/-- Executes an `allow`: revokes what the permission minted before, mints a grant for each template
and records the decision. -/
def allow (host : Host) (package : Package) (descriptor : PermissionDescriptor) (duration : String)
    (override : Option Members) (now : Int) : Host :=
  let cleared := host.clear package.id descriptor.id now
  let granted := descriptor.grants.foldl
    (mintTemplate package descriptor (durationWord duration) override) cleared
  granted.recordDecision
    { plugin := package.id
      permission := descriptor.id
      decision := "allow"
      duration := durationWord duration
      grants := (granted.grants.drop cleared.grants.length).map HeldGrant.id
      capabilities := descriptor.capabilities.map Capability.id }

/-- Records an answer that lasts longer than once. -/
def keep (host : Host) (package : Package) (request : ConsentRequest) (duration : ConsentDuration)
    (now : Int) : Host :=
  host.allow package request.permission duration.word (request.scope.map AskedScope.members) now

end Host

/-! ### What a request asks about -/

section Asked

variable {used : List ScopeUse} {key : String}

/-- The values of a call under a key. -/
def askedValues (used : List ScopeUse) (key : String) : List String :=
  (used.filter fun value => value.key = key).map ScopeUse.display

theorem push_eq_upsert (scope : AskedScope) (entry value : String) :
    scope.push entry value = Keyed.upsert entry [value] (· ++ [value]) scope := by
  induction scope with
  | nil => rfl
  | cons first rest ih => rw [AskedScope.push, Keyed.upsert, ih]

theorem lookup_push (scope : AskedScope) (entry value : String) :
    (scope.push entry value).lookup key =
      if key = entry then some ((scope.lookup key).getD [] ++ [value]) else scope.lookup key := by
  rw [push_eq_upsert, Keyed.lookup_upsert]
  refine if_ctx_congr Iff.rfl (fun hkey => ?_) fun _ => rfl
  cases hheld : scope.lookup entry <;> simp [hkey, hheld]

variable (used key) in
theorem lookup_foldl_push (scope : AskedScope) :
    (used.foldl (fun scope value => AskedScope.push scope value.key value.display) scope).lookup
      key = if askedValues used key = [] then scope.lookup key
        else some ((scope.lookup key).getD [] ++ askedValues used key) := by
  induction used generalizing scope with
  | nil => simp [askedValues]
  | cons first rest ih =>
    rw [foldl_cons, ih, lookup_push]
    by_cases hkey : first.key = key
    · have hvalues : askedValues (first :: rest) key = first.display :: askedValues rest key := by
        simp [askedValues, hkey]
      rw [hvalues, if_pos hkey.symm, if_neg (cons_ne_nil _ _)]
      split_ifs with hrest
      · rw [hrest]
      · simp
    · have hvalues : askedValues (first :: rest) key = askedValues rest key := by
        simp [askedValues, hkey]
      rw [hvalues, if_neg (Ne.symm hkey)]

/-- What the scope of a request has under a key. -/
theorem lookup_askedScope : (askedScope used).bind (·.lookup key) =
    if askedValues used key = [] then none else some (askedValues used key) := by
  have hlookup := lookup_foldl_push used key []
  unfold askedScope
  split
  · next heq => simpa [heq] using hlookup
  · simpa using hlookup

theorem lookup_map_values {β γ : Type} (f : String → β → γ) (entries : List (String × β)) :
    (entries.map fun (entry, value) => (entry, f entry value)).lookup key =
      (entries.lookup key).map (f key) := by
  induction entries with
  | nil => rfl
  | cons first rest ih =>
    obtain ⟨entry, value⟩ := first
    rw [map_cons, lookup_cons, lookup_cons]
    by_cases hkey : key = entry
    · simp [hkey]
    · simpa [beq_false_of_ne hkey] using ih

variable (key) in
theorem lookup_narrowed (asked : Option AskedScope) (answered : Option Members) :
    (narrowed asked answered).bind (·.lookup key) = (asked.bind (·.lookup key)).map fun values =>
      .array ((keptItems values (answered.bind (·.lookup key))).map .string) := by
  cases asked with
  | none => rfl
  | some asked =>
    cases answered with
    | none => exact lookup_map_values (fun _ values => Json.array (values.map .string)) asked
    | some answered =>
      simpa [narrowed, AskedScope.members, Function.comp_def] using lookup_map_values
        (fun entry values => Json.array ((keptItems values (answered.lookup entry)).map .string))
        asked

/-- **What an answer covers.** Under a key that was asked about the answer covers what its kept
values stand for; any other key it does not bound. -/
theorem covers_narrowed {matchers : Matchers} {home : Option String} {answered : Option Members}
    {value : ScopeUse} :
    Covers matchers home (narrowed (askedScope used) answered) value ↔
      (askedValues used value.key ≠ [] →
        entriesCover matchers home
          (keptItems (askedValues used value.key) (answered.bind (·.lookup value.key))) value =
            true) := by
  have hlookup := lookup_narrowed value.key (askedScope used) answered
  rw [lookup_askedScope] at hlookup
  cases hscope : narrowed (askedScope used) answered with
  | none =>
    rw [hscope] at hlookup
    have hasked : askedValues used value.key = [] := by
      by_contra hne
      simp [hne] at hlookup
    simp [hasked]
  | some scope =>
    rw [hscope, Option.bind_some] at hlookup
    rw [covers_some_iff, hlookup]
    by_cases hasked : askedValues used value.key = []
    · simp [hasked]
    · simp [hasked, entryCovers, allowedList, Function.comp_def, itemText]

end Asked

/-! ### The stored policy after an answer -/

namespace Host

section Stored

variable {host : Host} {plugin : String} {home : Option String} {now later : Int} {id : Nat}
  {package : Package} {descriptor : PermissionDescriptor} {override : Option Members}
  {duration : String} {held : HeldGrant} {found : Grant}

theorem standsAt_iff : held.standsAt now = true ↔ held.revokedAt = none ∧ held.grant.Stands now := by
  simp only [HeldGrant.standsAt, Grant.Stands, HeldGrant.grant, Bool.and_eq_true,
    Option.isNone_iff_eq_none]
  cases held.expiresAt <;> simp

theorem mem_policyFor :
    found ∈ (host.policyFor plugin home now).grants ↔
      ∃ held ∈ host.grants, (held.plugin = plugin ∧ held.revokedAt = none ∧ held.grant.Stands now) ∧
        held.grant = found := by
  simp [policyFor, standingGrants, standsAt_iff, and_assoc]

/-- A grant after the grants with some identities were revoked. -/
theorem grants_foldl_revoke (ids : List Nat) :
    (ids.foldl (fun host id => Host.revoke host id now) host).grants =
      host.grants.map fun held =>
        if held.id ∈ ids ∧ held.revokedAt = none then { held with revokedAt := some now }
        else held := by
  induction ids generalizing host with
  | nil => simp
  | cons first rest ih =>
    rw [foldl_cons, ih]
    simp only [revoke, map_map]
    refine map_congr_left fun held _ => ?_
    simp only [Function.comp_apply, revoked, mem_cons]
    by_cases hfirst : held.id = first
    · by_cases hrevoked : held.revokedAt = none <;> simp [hfirst, hrevoked]
    · simp [hfirst]

theorem decisions_foldl_revoke (ids : List Nat) :
    (ids.foldl (fun host id => Host.revoke host id now) host).decisions = host.decisions := by
  induction ids generalizing host with
  | nil => rfl
  | cons first rest ih => rw [foldl_cons, ih, revoke]

/-- Minting the templates of a permission adds a standing grant for each of them. -/
theorem exists_grants_foldl_mintTemplate (package : Package) (descriptor : PermissionDescriptor)
    (duration : String) (override : Option Members) (templates : List GrantTemplate)
    (host : Host) : ∃ added : List HeldGrant,
      (templates.foldl (mintTemplate package descriptor duration override) host).grants =
        host.grants ++ added ∧
      (added.map HeldGrant.grant = templates.map fun template =>
        ⟨template.capability, resolveScope package template override, none,
          some descriptor.id⟩) ∧
      ∀ held ∈ added, held.plugin = package.id ∧ held.revokedAt = none := by
  induction templates generalizing host with
  | nil => exact ⟨[], by simp, rfl, by simp⟩
  | cons first rest ih =>
    obtain ⟨added, hgrants, hmap, hadded⟩ :=
      @ih (mintTemplate package descriptor duration override host first)
    refine ⟨⟨host.minted + 1, package.id, first.capability,
      resolveScope package first override, duration, none, none, some descriptor.id⟩ :: added,
      ?_, ?_, forall_mem_cons.mpr ⟨⟨rfl, rfl⟩, hadded⟩⟩
    · rw [foldl_cons, hgrants, mintTemplate, Host.grant, append_assoc]
      rfl
    · rw [map_cons, hmap]
      rfl

theorem decisions_foldl_mintTemplate (templates : List GrantTemplate) :
    (templates.foldl (mintTemplate package descriptor duration override) host).decisions =
      host.decisions := by
  induction templates generalizing host with
  | nil => rfl
  | cons first rest ih => rw [foldl_cons, ih, mintTemplate, Host.grant]

theorem id_mem_grantsOfPermission {permission : String} (hheld : held ∈ host.grants) :
    held.id ∈ host.grantsOfPermission plugin permission now ↔
      (held.plugin = plugin ∧ held.standsAt now = true) ∧ held.permission = some permission := by
  simp only [grantsOfPermission, standingGrants, mem_map, mem_filter, Bool.and_eq_true,
    decide_eq_true_eq]
  constructor
  · rintro ⟨other, ⟨⟨hother, hstands⟩, hpermission⟩, hid⟩
    obtain rfl := inj_on_of_nodup_map host.id_nodup hother hheld hid
    exact ⟨hstands, hpermission⟩
  · rintro ⟨hstands, hpermission⟩
    exact ⟨held, ⟨⟨hheld, hstands⟩, hpermission⟩, rfl⟩

/-- **The stored grants after an answer.** What another permission minted stands as before, and what
the permission of the answer minted is replaced by its templates. -/
theorem mem_policyFor_allow :
    found ∈ ((host.allow package descriptor duration override now).policyFor package.id home
        now).grants ↔
      (found ∈ (host.policyFor package.id home now).grants ∧
        found.permission ≠ some descriptor.id) ∨ found ∈ mint package descriptor override := by
  obtain ⟨added, hgrants, hmap, hadded⟩ := exists_grants_foldl_mintTemplate package descriptor
    (durationWord duration) override descriptor.grants (host.clear package.id descriptor.id now)
  have hmint : added.map HeldGrant.grant = mint package descriptor override := hmap
  have hall : (host.allow package descriptor duration override now).grants =
      ((host.grantsOfPermission package.id descriptor.id now).foldl
        (fun host id => host.revoke id now) host).grants ++ added := hgrants
  rw [mem_policyFor, hall, grants_foldl_revoke]
  simp only [mem_append, mem_map]
  constructor
  · rintro ⟨held, hheld | hheld, hstands, rfl⟩
    · obtain ⟨old, hold, rfl⟩ := hheld
      by_cases hrevoked : old.id ∈ host.grantsOfPermission package.id descriptor.id now ∧
          old.revokedAt = none
      · rw [if_pos hrevoked] at hstands
        cases hstands.2.1
      · rw [if_neg hrevoked] at hstands ⊢
        refine .inl ⟨mem_policyFor.mpr ⟨old, hold, hstands, rfl⟩, fun hpermission => ?_⟩
        refine hrevoked ⟨(id_mem_grantsOfPermission hold).mpr ⟨⟨hstands.1, ?_⟩, hpermission⟩,
          hstands.2.1⟩
        exact standsAt_iff.mpr hstands.2
    · exact .inr (hmint ▸ mem_map_of_mem hheld)
  · rintro (⟨hfound, hpermission⟩ | hfound)
    · obtain ⟨held, hheld, hstands, rfl⟩ := mem_policyFor.mp hfound
      have hnot : ¬ (held.id ∈ host.grantsOfPermission package.id descriptor.id now ∧
          held.revokedAt = none) := fun hrevoked =>
        hpermission ((id_mem_grantsOfPermission hheld).mp hrevoked.1).2
      exact ⟨held, .inl ⟨held, hheld, if_neg hnot⟩, hstands, rfl⟩
    · rw [← hmint] at hfound
      obtain ⟨held, hheld, rfl⟩ := mem_map.mp hfound
      obtain ⟨hplugin, hrevoked⟩ := hadded held hheld
      refine ⟨held, .inr hheld, ⟨hplugin, hrevoked, fun expiry hexpiry => ?_⟩, rfl⟩
      have hminted := mem_map_of_mem (f := HeldGrant.grant) hheld
      rw [hmap] at hminted
      obtain ⟨template, -, htemplate⟩ := mem_map.mp hminted
      rw [← htemplate] at hexpiry
      cases hexpiry

/-- The stored denials after an answer: those of the decisions about other permissions. -/
theorem denies_policyFor_allow {capability : Capability} :
    ((host.allow package descriptor duration override now).policyFor package.id home now).Denies
        capability ↔
      capability ∈ deniedBy (host.decisions.filter fun decision =>
        decision.permission ≠ descriptor.id) package.id := by
  have hdecisions : ∃ decided : Decision, decided.decision = "allow" ∧
      (host.allow package descriptor duration override now).decisions =
        (host.decisions.filter fun existing =>
          !(existing.plugin = package.id && existing.permission = descriptor.id)) ++ [decided] := by
    refine ⟨⟨package.id, descriptor.id, "allow", durationWord duration,
      ((descriptor.grants.foldl (mintTemplate package descriptor (durationWord duration) override)
        (host.clear package.id descriptor.id now)).grants.drop
          (host.clear package.id descriptor.id now).grants.length).map HeldGrant.id,
      descriptor.capabilities.map Capability.id⟩, rfl, ?_⟩
    simp only [allow, recordDecision, decisions_foldl_mintTemplate]
    simp only [clear, forgetDenials, decisions_foldl_revoke]
  obtain ⟨decided, hallow, hdecisions⟩ := hdecisions
  simp only [Policy.Denies, policyFor, not_mem_nil, false_or, hdecisions, deniedBy,
    filter_append, filter_filter, flatMap_append, mem_append]
  have hnone : [decided].filter (fun decision =>
      decide (decision.plugin = package.id) && decide (decision.decision = "deny")) = [] := by
    simp [hallow]
  rw [hnone, flatMap_nil]
  simp only [not_mem_nil, or_false]
  refine iff_of_eq (congrArg (capability ∈ flatMap _ ·) (filter_congr fun decision _ => ?_))
  by_cases hplugin : decision.plugin = package.id <;> simp [hplugin]

end Stored

end Host

end OnoSendai.Kuang
