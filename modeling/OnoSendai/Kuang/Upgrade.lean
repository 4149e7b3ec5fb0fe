import OnoSendai.Kuang.Permission
import OnoSendai.Lib.Buckets
import OnoSendai.Lib.Covering

/-!
# An upgrade whose delta is empty

An upgrade keeps every decision when the delta of its permissions is empty. What the grants minted
from the new descriptors allow is compared with what the grants minted from the old ones allowed.
The comparison reads a permission that the profile selects grant by grant; it passes over what is
not selected, over a scope of contributions that becomes written out, and over a scope value that
is neither a list nor a text.
-/

namespace OnoSendai.Kuang

open List Option

variable {matchers : Matchers} {home : Option String} {package : Package}
  {override : Option Members} {before after : PermissionSet} {profile : String}
  {old new : PermissionDescriptor} {template previous : GrantTemplate} {value : ScopeUse}

/-! ### Scopes of minted grants -/

theorem lookup_insertMember (members : Members) (key other : String) (stored : Json) :
    (Json.insertMember members key stored).lookup other =
      if other = key then some stored else members.lookup other := by
  have hstored : Json.insertMember members key stored =
      Keyed.upsert key stored (fun _ => stored) members := by
    induction members with
    | nil => rfl
    | cons first rest ih => rw [Json.insertMember, Keyed.upsert, ih]
  rw [hstored, Keyed.lookup_upsert]
  refine if_congr Iff.rfl ?_ rfl
  cases members.lookup key <;> rfl

/-- What is found in an object into which the members of another are stored. -/
theorem lookup_foldl_insertMember {named : Members} (hkeys : (named.map Prod.fst).Nodup)
    (members : Members) (key : String) :
    (named.foldl (fun scope (key, stored) => Json.insertMember scope key stored) members).lookup
      key = (named.lookup key).or (members.lookup key) := by
  induction named generalizing members with
  | nil => simp
  | cons first rest ih =>
    obtain ⟨entry, stored⟩ := first
    rw [map_cons, nodup_cons] at hkeys
    rw [foldl_cons, ih hkeys.2, lookup_insertMember, lookup_cons]
    by_cases hentry : key = entry
    · subst hentry
      have hrest : rest.lookup key = none := by
        rw [lookup_eq_none_iff]
        intro found hfound
        refine bne_iff_ne.mpr fun hsame => ?_
        exact hkeys.1 (mem_map.mpr ⟨found, hfound, hsame.symm⟩)
      simp [hrest]
    · simp [hentry, beq_false_of_ne hentry]

/-- **The scope of a minted grant.** A key that the decision names is bounded as it names it, and
every other key as the template has it. -/
theorem covers_resolveScope (hkeys : ∀ named ∈ override, (named.map Prod.fst).Nodup) :
    Covers matchers home (resolveScope package template override) value ↔
      ((override.bind (·.lookup value.key)).elim
        (Covers matchers home (baseScope package template.scope) value)
        fun allowed => entryCovers matchers home allowed value = true) := by
  unfold resolveScope
  cases override with
  | none => cases baseScope package template.scope <;> simp
  | some named =>
    cases hbase : baseScope package template.scope with
    | none =>
      simp only [covers_some_iff, bind_some, covers_none]
      cases named.lookup value.key <;> simp
    | some base =>
      simp only [covers_some_iff, bind_some,
        lookup_foldl_insertMember (hkeys named rfl)]
      cases named.lookup value.key <;> simp

theorem Covers.resolveScope (hkeys : ∀ named ∈ override, (named.map Prod.fst).Nodup)
    (hbase : Covers matchers home (baseScope package template.scope) value →
      Covers matchers home (baseScope package previous.scope) value)
    (h : Covers matchers home (resolveScope package template override) value) :
    Covers matchers home (resolveScope package previous override) value := by
  rw [covers_resolveScope hkeys] at h ⊢
  cases hnamed : override.bind (·.lookup value.key) with
  | none =>
    rw [hnamed] at h
    exact hbase h
  | some allowed =>
    rw [hnamed] at h
    exact h

/-! ### What the comparison of two scopes says -/

theorem allowedList_eq_some {allowed : Json} {entries : List String}
    (h : allowedList matchers allowed = some entries) : listOf matchers allowed = entries := by
  cases allowed with
  | array items => exact some.inj h
  | string text => exact some.inj h
  | null | bool _ | number _ | object _ => cases h

/-- The scope of a template whose earlier form was written out with a value that the broker cannot
read. -/
def Unreadable (matchers : Matchers) (earlier : Members) : Prop :=
  ∃ entry ∈ earlier, allowedList matchers entry.2 = none

/-- A written-out scope that is not wider key by key covers no more. -/
theorem covers_concrete_of_widened_eq_none {earlier later : Members}
    (hwidened : widened matchers (some (.concrete earlier)) (some (.concrete later)) = none)
    (hreadable : ¬ Unreadable matchers earlier)
    (hcovers : Covers matchers home (some later) value) :
    Covers matchers home (some earlier) value := by
  rw [covers_some_iff] at hcovers ⊢
  intro allowed hallowed
  have hmem := Json.mem_of_lookup (mem_def.mp hallowed)
  have hkey : widenedKey matchers later value.key allowed = none :=
    findSome?_eq_none_iff.mp hwidened _ hmem
  obtain ⟨entries, hentries⟩ : ∃ entries, allowedList matchers allowed = some entries := by
    rw [← ne_none_iff_exists']
    exact fun hnone => hreadable ⟨_, hmem, hnone⟩
  unfold widenedKey at hkey
  cases hlater : later.lookup value.key with
  | none => simp [hlater] at hkey
  | some kept =>
    have hsubset : listOf matchers kept ⊆ entries := by
      rw [hlater] at hkey
      rw [← allowedList_eq_some hentries]
      intro item hitem
      by_contra hextra
      have hempty : ((listOf matchers kept).filter (· ∉ listOf matchers allowed)) = [] := by
        simpa using hkey
      exact (filter_eq_nil_iff.mp hempty item hitem) (by simpa using hextra)
    have hentry := hcovers kept hlater
    unfold entryCovers at hentry ⊢
    rw [hentries]
    cases hkept : allowedList matchers kept with
    | none => simp [hkept] at hentry
    | some items =>
      rw [hkept] at hentry
      exact entriesCover_mono (allowedList_eq_some hkept ▸ hsubset) hentry

/-- The comparison of two scopes passes over the later one: contributions that become written out,
or a written-out scope with a value the broker cannot read. -/
def SkipsScope (matchers : Matchers) : Option ScopeTemplate → Option ScopeTemplate → Prop
  | some .packageContributions, some (.concrete _) => True
  | some (.concrete earlier), some (.concrete _) => Unreadable matchers earlier
  | _, _ => False

/-- A scope that is found not to be wider covers no more, where the comparison reads it. -/
theorem covers_of_widened_eq_none {earlier later : Option ScopeTemplate}
    (hwidened : widened matchers earlier later = none) (hread : ¬ SkipsScope matchers earlier later)
    (hcovers : Covers matchers home (baseScope package later) value) :
    Covers matchers home (baseScope package earlier) value := by
  cases earlier with
  | none => exact covers_none
  | some earlier =>
    cases later with
    | none => cases hwidened
    | some later =>
      cases earlier with
      | runtimeDerived => exact covers_none
      | providerInstance => exact covers_none
      | packageContributions =>
        cases later with
        | concrete scope => exact absurd trivial hread
        | packageContributions => exact hcovers
        | runtimeDerived | providerInstance => cases hwidened
      | concrete scope =>
        cases later with
        | concrete wider => exact covers_concrete_of_widened_eq_none hwidened hread hcovers
        | runtimeDerived | providerInstance | packageContributions => cases hwidened

/-! ### What the comparison of two permissions says -/

theorem compare_eq_nil (h : compare matchers old new = []) :
    (∀ capability ∈ new.capabilities, capability ∈ old.capabilities) ∧
      ∀ template ∈ new.grants, compareGrant matchers old new template = [] := by
  unfold compare at h
  by_cases hkind : old.kind ≠ new.kind ∨ ¬ old.capabilities ⊆ new.capabilities
  · rw [if_pos hkind] at h
    cases h
  · rw [if_neg hkind] at h
    simp only [append_eq_nil_iff, map_eq_nil_iff, flatMap_eq_nil_iff] at h
    refine ⟨fun capability hcapability => ?_, h.1.1.2⟩
    simpa using filter_eq_nil_iff.mp h.1.1.1 capability hcapability

theorem mem_capabilities_of_compare_eq_nil (h : compare matchers old new = [])
    (htemplate : template ∈ new.grants) : ∃ earlier ∈ old.grants,
      earlier.capability = template.capability := by
  have hnew : template.capability ∈ new.capabilities :=
    mem_filter.mpr ⟨by cases template.capability <;> decide,
      any_eq_true.mpr ⟨template, htemplate, by simp⟩⟩
  have hold := (compare_eq_nil h).1 template.capability hnew
  obtain ⟨earlier, hearlier, hsame⟩ := any_eq_true.mp (mem_filter.mp hold).2
  exact ⟨earlier, hearlier, by simpa using hsame⟩

/-- A permission in which nothing changed has no wider scope than the first grant of the old one
for the capability. -/
theorem widened_of_compare_eq_nil (h : compare matchers old new = [])
    (htemplate : template ∈ new.grants)
    (hfind : old.grants.find? (fun earlier => earlier.capability = template.capability) =
      some previous) : widened matchers previous.scope template.scope = none := by
  have hgrant := (compare_eq_nil h).2 template htemplate
  unfold compareGrant at hgrant
  simp only [hfind, append_eq_nil_iff] at hgrant
  cases hwidened : widened matchers previous.scope template.scope with
  | none => rfl
  | some why => simp [hwidened] at hgrant

/-! ### An empty delta -/

/-- The policy of the grants a permission mints. -/
def mintedPolicy (home : Option String) (package : Package) (override : Option Members)
    (descriptor : PermissionDescriptor) : Policy :=
  ⟨[], [], mint package descriptor override, home⟩

/-- No more authority: no permission of the old version allows a use that it did not allow, and
every permission that is selected or automatic was so before. -/
def KeepsAuthority (matchers : Matchers) (home : Option String) (package : Package)
    (override : Option Members) (before after : PermissionSet) (profile : String) : Prop :=
  (∀ id, ∀ old ∈ before.descriptor id, ∀ new ∈ after.descriptor id, ∀ capability used now,
    (mintedPolicy home package override new).Allows matchers capability used now →
      (mintedPolicy home package override old).Allows matchers capability used now) ∧
  ∀ selected ∈ after.selected profile, ∃ earlier ∈ before.selected profile,
    earlier.id = selected.id

/-- A grant whose scope the comparison of an upgrade passes over: its permission is not among what
the profile selects, or its scope is one the comparison does not read. -/
def PassedOver (matchers : Matchers) (after : PermissionSet) (profile : String)
    (old new : PermissionDescriptor) (template : GrantTemplate) : Prop :=
  new ∉ Keyed.firstKept PermissionDescriptor.id (after.selected profile) ∨
  ∃ previous ∈ old.grants.find? (fun earlier => earlier.capability = template.capability),
    SkipsScope matchers previous.scope template.scope

/-- One grant of the old permission covers all that a new grant covers. -/
def WithinEarlier (matchers : Matchers) (home : Option String) (package : Package)
    (override : Option Members) (old : PermissionDescriptor) (template : GrantTemplate) : Prop :=
  ∃ earlier ∈ old.grants, earlier.capability = template.capability ∧
    ∀ value, Covers matchers home (resolveScope package template override) value →
      Covers matchers home (resolveScope package earlier override) value

theorem mintedPolicy_allows_iff {capability : Capability} {used : List ScopeUse} {now : Int} :
    (mintedPolicy home package override old).Allows matchers capability used now ↔
      ∃ earlier ∈ old.grants, earlier.capability = capability ∧
        ∀ value ∈ used, Covers matchers home (resolveScope package earlier override) value := by
  simp [Policy.allows_iff, mintedPolicy, mint, Policy.Denies, Grant.Stands]

/-- A permission allows no more exactly when each of its grants is within one earlier grant. -/
theorem forall_allows_iff :
    (∀ capability used now,
      (mintedPolicy home package override new).Allows matchers capability used now →
        (mintedPolicy home package override old).Allows matchers capability used now) ↔
    ∀ template ∈ new.grants, WithinEarlier matchers home package override old template := by
  simp only [mintedPolicy_allows_iff]
  constructor
  · intro h template htemplate
    have hselection := Lib.forall_selection_iff
      (fun earlier value => Covers matchers home (resolveScope package earlier override) value)
      (old.grants.filter fun earlier => earlier.capability = template.capability)
      (Covers matchers home (resolveScope package template override))
    obtain ⟨earlier, hearlier, hwithin⟩ := hselection.mp fun used hused => by
      obtain ⟨earlier, hearlier, hsame, hcovers⟩ :=
        h template.capability used 0 ⟨template, htemplate, rfl, hused⟩
      exact ⟨earlier, mem_filter.mpr ⟨hearlier, by simpa using hsame⟩, hcovers⟩
    obtain ⟨hmem, hsame⟩ := mem_filter.mp hearlier
    exact ⟨earlier, hmem, by simpa using hsame, hwithin⟩
  · rintro h capability used now ⟨template, htemplate, rfl, hcovers⟩
    obtain ⟨earlier, hearlier, hsame, hwithin⟩ := h template htemplate
    exact ⟨earlier, hearlier, hsame, fun value hvalue => hwithin value (hcovers value hvalue)⟩

/-- A permission that the delta reads and finds unchanged was selected before. -/
theorem compare_eq_nil_of_delta_eq_nil (hdelta : delta matchers before after profile = [])
    (hnew : new ∈ Keyed.firstKept PermissionDescriptor.id (after.selected profile)) :
    ∃ old ∈ before.descriptor new.id, compare matchers old new = [] ∧
      ∃ earlier ∈ before.selected profile, earlier.id = new.id := by
  have hentries : selectedEntries matchers before profile new = [] :=
    flatMap_eq_nil_iff.mp (append_eq_nil_iff.mp hdelta).1 new hnew
  unfold selectedEntries at hentries
  cases hold : before.descriptor new.id with
  | none => simp [hold] at hentries
  | some old =>
    rw [hold] at hentries
    by_cases hselected : new.id ∈ (before.selected profile).map PermissionDescriptor.id
    · refine ⟨old, rfl, ?_, by simpa using hselected⟩
      simpa [hselected] using hentries
    · simp [hselected] at hentries

/-- **What an empty delta says.** Where the delta of an upgrade is empty, the new version has no
more authority if and only if every grant that the comparison passed over is within one grant of
the old permission. -/
theorem keepsAuthority_iff (hdelta : delta matchers before after profile = [])
    (hkeys : ∀ named ∈ override, (named.map Prod.fst).Nodup) :
    KeepsAuthority matchers home package override before after profile ↔
      ∀ id, ∀ old ∈ before.descriptor id, ∀ new ∈ after.descriptor id,
        ∀ template ∈ new.grants, PassedOver matchers after profile old new template →
          WithinEarlier matchers home package override old template := by
  unfold KeepsAuthority
  simp only [forall_allows_iff]
  constructor
  · rintro ⟨hkeeps, -⟩ id old hold new hnew template htemplate -
    exact hkeeps id old hold new hnew template htemplate
  · refine fun hpassed => ⟨fun id old hold new hnew template htemplate => ?_, fun selected hmem => ?_⟩
    · by_cases hover : PassedOver matchers after profile old new template
      · exact hpassed id old hold new hnew template htemplate hover
      · obtain ⟨hselected, hread⟩ := not_or.mp hover
        obtain ⟨held, hheld, hcompare, -⟩ :=
          compare_eq_nil_of_delta_eq_nil hdelta (not_not.mp hselected)
        have hid : new.id = id := by simpa using find?_some hnew
        obtain rfl : held = old := by
          rw [hid] at hheld
          exact mem_unique hheld hold
        obtain ⟨earlier, hearlier, hsame⟩ := mem_capabilities_of_compare_eq_nil hcompare htemplate
        obtain ⟨previous, hprevious⟩ := isSome_iff_exists.mp
          (find?_isSome (p := fun earlier => earlier.capability = template.capability).mpr
            ⟨earlier, hearlier, by simpa using hsame⟩)
        refine ⟨previous, mem_of_find?_eq_some hprevious,
          by simpa using find?_some hprevious, fun value => ?_⟩
        refine Covers.resolveScope hkeys fun hbase => ?_
        exact covers_of_widened_eq_none (widened_of_compare_eq_nil hcompare htemplate hprevious)
          (fun hskips => hread ⟨previous, hprevious, hskips⟩) hbase
    · obtain ⟨kept, hkept, hsame⟩ := Keyed.exists_mem_firstKept PermissionDescriptor.id hmem
      obtain ⟨-, -, -, earlier, hearlier, hid⟩ := compare_eq_nil_of_delta_eq_nil hdelta hkept
      exact ⟨earlier, hearlier, hid.trans hsame⟩

/-! ### Two upgrades -/

/-- Matchers for scopes of names: no glob is matched, and no value other than a text is printed. -/
def nameMatchers : Matchers :=
  ⟨fun _ => "", fun _ => none⟩

/-- A package that contributes one relation. -/
def relatingPackage : Package :=
  ⟨"dev.example.echo", ["Process->File"]⟩

/-- A permission layer of one permission, which every profile leaves out. -/
def solePermission (kind : PermissionKind) (phase : PermissionPhase) (risk : PermissionRisk)
    (template : GrantTemplate) : PermissionSet :=
  ⟨[⟨"sole", kind, "The only permission", phase, false, risk, [template]⟩],
    [⟨"recommended", ["sole"]⟩]⟩

/-- Reading the units with the given names. -/
def unitsPermission (names : List String) : PermissionSet :=
  solePermission .hostObserve .install .observe
    ⟨.serviceRead, some (.concrete [("units", .array (names.map .string))])⟩

/-- Writing relations in the given scope. -/
def relationsPermission (scope : ScopeTemplate) : PermissionSet :=
  solePermission .localContribution .automatic .local' ⟨.relationWrite, some scope⟩

theorem keepsAuthority_iff_units :
    KeepsAuthority nameMatchers none relatingPackage none
      (unitsPermission ["web-*", "db-*"]) (unitsPermission ["web-*"]) "recommended" := by
  refine (keepsAuthority_iff rfl (by simp)).mpr ?_
  rintro id old hold new hnew template htemplate -
  obtain rfl := mem_singleton.mp (mem_of_find?_eq_some hold)
  obtain rfl := mem_singleton.mp (mem_of_find?_eq_some hnew)
  obtain rfl := mem_singleton.mp htemplate
  refine ⟨_, mem_singleton.mpr rfl, rfl, fun value => ?_⟩
  exact covers_concrete_of_widened_eq_none (by decide +kernel) (by simp [Unreadable, allowedList])

/-- An automatic permission for the relations of its package becomes one for every relation, and the
delta is empty. -/
theorem not_keepsAuthority_writtenOut :
    delta nameMatchers (relationsPermission .packageContributions)
        (relationsPermission (.concrete [("relations", .array [.string "*"])])) "recommended" = [] ∧
      ¬ KeepsAuthority nameMatchers none relatingPackage none
        (relationsPermission .packageContributions)
        (relationsPermission (.concrete [("relations", .array [.string "*"])])) "recommended" := by
  refine ⟨rfl, fun hkeeps => ?_⟩
  have hallowed := hkeeps.1 "sole" _ rfl _ rfl .relationWrite
    [.name "relations" "ono.process_to_socket"] 0
  simp only [mintedPolicy_allows_iff] at hallowed
  obtain ⟨earlier, hearlier, -, hcovers⟩ := hallowed
    ⟨_, mem_singleton.mpr rfl, rfl, by
      rw [forall_mem_singleton]
      exact covers_some.mpr (by decide +kernel)⟩
  obtain rfl := mem_singleton.mp hearlier
  have := covers_some.mp (hcovers _ (mem_singleton.mpr rfl))
  revert this
  decide +kernel

end OnoSendai.Kuang
