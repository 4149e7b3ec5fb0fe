import Mathlib.Tactic.Linarith
import OnoSendai.Change.Asset
import OnoSendai.Change.State

/-!
# Cleaning up recovery assets

A recovery asset is kept for a while after a plan that rests on it was verified. Before anything is
removed, a preview says of each asset what removing it would mean: which plans would lose their
recovery, and whether its time is up.

The time of an asset is counted from one verification, the first that is recorded among the plans
that rest on it. Plans may share an asset, and then the others count from their own.
-/

namespace OnoSendai.Protection

open List

/-! ### Time -/

/-- The earliest instant, in nanoseconds. -/
def minTimestamp : Int :=
  -377705023201 * 1000000000

/-- The latest instant, in nanoseconds. -/
def maxTimestamp : Int :=
  253402207200 * 1000000000 + 999999999

/-- An instant, in nanoseconds. -/
structure Timestamp where
  nanos : Int
  inRange : minTimestamp ≤ nanos ∧ nanos ≤ maxTimestamp

/-- The instant a span later, if there is one. -/
def Timestamp.checkedAdd (instant : Timestamp) (span : Int) : Option Timestamp :=
  if h : minTimestamp ≤ instant.nanos + span ∧ instant.nanos + span ≤ maxTimestamp then
    some ⟨instant.nanos + span, h⟩
  else
    none

/-- A span as a signed number of seconds and nanoseconds, if the seconds fit into 64 bits. -/
def signedSpan (nanoseconds : Nat) : Option Int :=
  if nanoseconds / 1000000000 < 2 ^ 63 then some nanoseconds else none

/-! ### Plans and assets -/

/-- Whether an asset in this state still occupies storage. -/
def occupiesStorage : AssetState → Bool
  | .creating | .ready | .invalid | .expired => true
  | .proposed | .removed | .failed => false

/-- Whether a plan in this state keeps its assets out of ordinary retention. -/
def retainsAssetsIndefinitely : PlanState → Bool
  | .failed | .degraded | .applyFailed | .prepareFailed | .recoveryFailed => true
  | _ => false

/-- What a plan still says about its own recoverability. -/
structure PlanRetention where
  plan : PlanId
  state : PlanState
  verifiedAt : Option Timestamp
  assets : List RecoveryAssetId
  advertisesRecovery : Bool

/-- Whether a plan rests on an asset: it names it, or the asset was made for it. -/
def PlanRetention.restsOn (plan : PlanRetention) (asset : RecoveryAsset) : Bool :=
  plan.assets.contains asset.id || asset.sourcePlan == some plan.plan

/-- The plans that rest on an asset. -/
def dependents (asset : RecoveryAsset) (plans : List PlanRetention) : List PlanRetention :=
  plans.filter (·.restsOn asset)

/-- When the time of an asset is up, counted from a verification. Nothing ends it where the asset
is held or nothing was verified. -/
def expiresAt (asset : RecoveryAsset) (verifiedAt : Option Timestamp) : Option Timestamp :=
  if asset.retention.hold then none
  else
    match verifiedAt with
    | none => none
    | some verified =>
      match signedSpan asset.retention.afterVerification with
      | none => none
      | some window => verified.checkedAdd window

/-! ### The preview -/

/-- What should happen to an asset now. -/
inductive CleanupVerdict
  | removable
  | withinRetention
  | retainedAfterFailure
  | held
  | blocked
  | alreadyGone

/-- The row of one asset in the preview. -/
structure CleanupEntry where
  asset : RecoveryAssetId
  verdict : CleanupVerdict
  unrecoverable : List PlanId
  expiresAt : Option Timestamp
  reclaimable : Option Nat
  detail : String

/-- What cleanup would do. -/
structure CleanupPreview where
  entries : List CleanupEntry

section Preview

variable (spell : Timestamp → String)

/-- The verdict on an asset and the sentence beside it. -/
def verdictFor (asset : RecoveryAsset) (resting : List PlanRetention) (stranded : List PlanId)
    (expires : Option Timestamp) (now : Timestamp) : CleanupVerdict × String :=
  if !occupiesStorage asset.state then
    (.alreadyGone,
      "the asset is " ++ Vocabulary.asStr asset.state ++ " and occupies no storage (§11.1)")
  else if !stranded.isEmpty then
    (.blocked, toString stranded.length ++ " plan(s) still offer recovery from this asset, and " ++
      "§2.15 forbids removing it silently")
  else if asset.retention.hold then
    (.held, "an explicit hold prevents automatic removal (§37.2)")
  else if resting.any fun plan => retainsAssetsIndefinitely plan.state then
    (.retainedAfterFailure, "§37.2: the assets of a failed, degraded or recovery-failed plan " ++
      "MUST NOT be removed by ordinary success retention")
  else
    match expires with
    | some expiry =>
      if expiry.nanos ≤ now.nanos then
        (.removable, "retention ended at " ++ spell expiry ++ " (§37.1)")
      else
        (.withinRetention, "retention runs until " ++ spell expiry ++ " (§37.1)")
    | none => (.withinRetention, "no successful verification has started §37.1's retention " ++
        "clock, so nothing automatic ends it")

/-- The row of an asset. -/
def entryFor (asset : RecoveryAsset) (plans : List PlanRetention) (now : Timestamp) :
    CleanupEntry :=
  let resting := dependents asset plans
  let expires := expiresAt asset (resting.findSome? (·.verifiedAt))
  let stranded := (resting.filter (·.advertisesRecovery)).map (·.plan)
  let answer := verdictFor spell asset resting stranded expires now
  { asset := asset.id
    verdict := answer.1
    unrecoverable := stranded
    expiresAt := expires
    reclaimable := if asset.state = .removed then none else asset.cost.retainedBytes
    detail := answer.2 }

/-- What removing each asset would mean. -/
def cleanupPreview (assets : List RecoveryAsset) (plans : List PlanRetention) (now : Timestamp) :
    CleanupPreview where
  entries := assets.map fun asset => entryFor spell asset plans now

end Preview

/-! ### When an asset may go -/

/-- Whether the time of an asset has run out, counted from a verification. -/
def Expired (asset : RecoveryAsset) (now verified : Timestamp) : Prop :=
  verified.nanos + asset.retention.afterVerification ≤ now.nanos

instance (asset : RecoveryAsset) (now verified : Timestamp) :
    Decidable (Expired asset now verified) :=
  inferInstanceAs (Decidable (_ ≤ _))

/-- Nothing but its time keeps an asset: it occupies storage, is not held, and no plan that rests on
it advertises recovery or keeps its assets. -/
structure Unclaimed (asset : RecoveryAsset) (plans : List PlanRetention) : Prop where
  occupies : occupiesStorage asset.state = true
  notHeld : asset.retention.hold = false
  silent : ∀ plan ∈ plans, plan.restsOn asset = true → plan.advertisesRecovery = false
  ordinary : ∀ plan ∈ plans, plan.restsOn asset = true →
    retainsAssetsIndefinitely plan.state = false

/-- An asset may go: nothing but its time keeps it, some plan that rests on it was verified, and its
time has run out for every plan that was. -/
structure Spent (asset : RecoveryAsset) (plans : List PlanRetention) (now : Timestamp) : Prop
    extends Unclaimed asset plans where
  verified : ∃ plan ∈ plans, plan.restsOn asset = true ∧ plan.verifiedAt.isSome = true
  expired : ∀ plan ∈ plans, plan.restsOn asset = true → ∀ verified,
    plan.verifiedAt = some verified → Expired asset now verified

/-- The preview is right: it calls removable only what may go, and what it says does not depend on
the order of the plans. -/
def PreviewSound (spell : Timestamp → String) (assets : List RecoveryAsset)
    (plans : List PlanRetention) (now : Timestamp) : Prop :=
  (∀ asset entry, (asset, entry) ∈ assets.zip (cleanupPreview spell assets plans now).entries →
    entry.verdict = .removable → Spent asset plans now) ∧
  ∀ reordered : List PlanRetention, reordered.Perm plans →
    (cleanupPreview spell assets reordered now).entries.map (·.verdict) =
      (cleanupPreview spell assets plans now).entries.map (·.verdict)

/-- The verified plans that rest on an asset agree about its time: for all of them it has run out,
or for none. -/
def ClocksAgree (asset : RecoveryAsset) (plans : List PlanRetention) (now : Timestamp) : Prop :=
  ∀ plan ∈ plans, ∀ other ∈ plans, plan.restsOn asset = true → other.restsOn asset = true →
    ∀ verified verified', plan.verifiedAt = some verified → other.verifiedAt = some verified' →
      Expired asset now verified → Expired asset now verified'

/-! ### What the verdict depends on -/

section Verdict

variable {spell : Timestamp → String} {asset : RecoveryAsset} {plans : List PlanRetention}
  {now : Timestamp}

/-- The expiry the code computes is in the past exactly when the time has run out: a sum that does
not fit into an instant is later than every instant. -/
theorem exists_expiresAt_le_iff (hheld : asset.retention.hold = false)
    (now verified : Timestamp) :
    (∃ expiry, expiresAt asset (some verified) = some expiry ∧ expiry.nanos ≤ now.nanos) ↔
      Expired asset now verified := by
  have hnow := now.inRange
  have hverified := verified.inRange
  simp only [minTimestamp, maxTimestamp] at hnow hverified
  simp only [expiresAt, hheld, Bool.false_eq_true, if_false, signedSpan, Expired]
  split_ifs with hfits
  · simp only [Timestamp.checkedAdd]
    split_ifs with hrange
    · simp
    · simp only [minTimestamp, maxTimestamp] at hrange
      refine ⟨fun ⟨_, hnone, _⟩ => absurd hnone (by simp), fun hle => absurd ?_ hrange⟩
      omega
  · refine ⟨fun ⟨_, hnone, _⟩ => absurd hnone (by simp), fun hle => absurd hle ?_⟩
    omega

/-- Whether the time of an asset has run out, counted from the first recorded verification. -/
def timeUp (asset : RecoveryAsset) (plans : List PlanRetention) (now : Timestamp) : Bool :=
  match (dependents asset plans).findSome? (·.verifiedAt) with
  | some verified => decide (Expired asset now verified)
  | none => false

/-- The verdict, by what it depends on: whether a plan advertises recovery, whether one keeps its
assets, and whether the time has run out. -/
def verdictOf (asset : RecoveryAsset) (advertised retained expired : Bool) : CleanupVerdict :=
  if !occupiesStorage asset.state then .alreadyGone
  else if advertised then .blocked
  else if asset.retention.hold then .held
  else if retained then .retainedAfterFailure
  else if expired then .removable
  else .withinRetention

theorem verdict_entryFor :
    (entryFor spell asset plans now).verdict =
      verdictOf asset ((dependents asset plans).any (·.advertisesRecovery))
        ((dependents asset plans).any fun plan => retainsAssetsIndefinitely plan.state)
        (timeUp asset plans now) := by
  have hstranded : (!(((dependents asset plans).filter (·.advertisesRecovery)).map (·.plan)).isEmpty)
      = (dependents asset plans).any (·.advertisesRecovery) := by
    rw [Bool.eq_iff_iff]
    simp
  simp only [entryFor, verdictFor, verdictOf, hstranded]
  by_cases hheld : asset.retention.hold = true
  · split_ifs <;> rfl
  have hnotHeld : asset.retention.hold = false := by simpa using hheld
  have hexpires : (match expiresAt asset ((dependents asset plans).findSome? (·.verifiedAt)) with
      | some expiry => decide (expiry.nanos ≤ now.nanos)
      | none => false) = timeUp asset plans now := by
    unfold timeUp
    cases hfirst : (dependents asset plans).findSome? (·.verifiedAt) with
    | none => simp [expiresAt, hnotHeld]
    | some verified =>
      have hiff := exists_expiresAt_le_iff hnotHeld now verified
      cases hexpiry : expiresAt asset (some verified) with
      | none => simpa [hexpiry] using hiff
      | some expiry => simpa [hexpiry] using hiff
  rw [← hexpires]
  cases expiresAt asset ((dependents asset plans).findSome? (·.verifiedAt)) with
  | none => split_ifs <;> simp_all
  | some expiry =>
    by_cases hle : expiry.nanos ≤ now.nanos
    · simp only [hle, if_true, decide_true]
      split_ifs <;> rfl
    · simp only [hle, if_false, decide_false, Bool.false_eq_true]
      split_ifs <;> rfl

theorem unclaimed_iff :
    Unclaimed asset plans ↔ occupiesStorage asset.state = true ∧ asset.retention.hold = false ∧
      (dependents asset plans).any (·.advertisesRecovery) = false ∧
      ((dependents asset plans).any fun plan => retainsAssetsIndefinitely plan.state) = false := by
  have hadvertised : (dependents asset plans).any (·.advertisesRecovery) = false ↔
      ∀ plan ∈ plans, plan.restsOn asset = true → plan.advertisesRecovery = false := by
    simp [dependents]
  have hretained : ((dependents asset plans).any fun plan =>
      retainsAssetsIndefinitely plan.state) = false ↔
      ∀ plan ∈ plans, plan.restsOn asset = true → retainsAssetsIndefinitely plan.state = false := by
    simp [dependents]
  rw [hadvertised, hretained]
  exact ⟨fun h => ⟨h.occupies, h.notHeld, h.silent, h.ordinary⟩,
    fun h => ⟨h.1, h.2.1, h.2.2.1, h.2.2.2⟩⟩

/-- The verdict is removable exactly when nothing but its time keeps the asset, and that has run
out. -/
theorem verdict_eq_removable_iff :
    (entryFor spell asset plans now).verdict = .removable ↔
      Unclaimed asset plans ∧ timeUp asset plans now = true := by
  rw [verdict_entryFor, unclaimed_iff, verdictOf]
  generalize (dependents asset plans).any (·.advertisesRecovery) = advertised
  generalize ((dependents asset plans).any fun plan =>
    retainsAssetsIndefinitely plan.state) = retained
  generalize timeUp asset plans now = expired
  split_ifs <;> simp_all

theorem exists_expired_of_timeUp (h : timeUp asset plans now = true) :
    ∃ plan ∈ plans, plan.restsOn asset = true ∧ ∃ verified, plan.verifiedAt = some verified ∧
      Expired asset now verified := by
  unfold timeUp at h
  split at h
  next verified hfirst =>
    obtain ⟨plan, hplan, hverified⟩ := exists_of_findSome?_eq_some hfirst
    obtain ⟨hmem, hrests⟩ := mem_filter.1 hplan
    exact ⟨plan, hmem, hrests, verified, hverified, of_decide_eq_true h⟩
  · exact absurd h (by simp)

/-- Where the plans agree, the time has run out if it has for any of them. -/
theorem timeUp_of_clocksAgree (hagree : ClocksAgree asset plans now) {plan : PlanRetention}
    (hplan : plan ∈ plans) (hrests : plan.restsOn asset = true) {verified : Timestamp}
    (hverified : plan.verifiedAt = some verified) (hexpired : Expired asset now verified) :
    timeUp asset plans now = true := by
  unfold timeUp
  split
  next first hfirst =>
    obtain ⟨other, hother, hotherVerified⟩ := exists_of_findSome?_eq_some hfirst
    obtain ⟨hmem, hotherRests⟩ := mem_filter.1 hother
    exact decide_eq_true
      (hagree plan hplan other hmem hrests hotherRests verified first hverified hotherVerified
        hexpired)
  next hnone =>
    rw [findSome?_eq_none_iff] at hnone
    exact absurd (hnone plan (mem_filter.2 ⟨hplan, hrests⟩)) (by simp [hverified])

end Verdict

/-! ### The order of the plans -/

section Order

variable {spell : Timestamp → String} {asset : RecoveryAsset}
  {plans reordered : List PlanRetention} {now : Timestamp}

theorem ClocksAgree.of_perm (hagree : ClocksAgree asset plans now)
    (hperm : reordered.Perm plans) : ClocksAgree asset reordered now :=
  fun plan hplan other hother =>
    hagree plan (hperm.mem_iff.1 hplan) other (hperm.mem_iff.1 hother)

/-- Where the plans agree, the order they are listed in makes no difference. An asset that
something else keeps gets its verdict without a look at its time. -/
theorem verdict_eq_of_perm (hagree : Unclaimed asset plans → ClocksAgree asset plans now)
    (hperm : reordered.Perm plans) :
    (entryFor spell asset reordered now).verdict = (entryFor spell asset plans now).verdict := by
  have hdependents : (dependents asset reordered).Perm (dependents asset plans) :=
    hperm.filter _
  rw [verdict_entryFor, verdict_entryFor, hdependents.any_eq, hdependents.any_eq]
  by_cases hunclaimed : Unclaimed asset plans
  swap
  · rw [unclaimed_iff] at hunclaimed
    unfold verdictOf
    generalize (dependents asset plans).any (·.advertisesRecovery) = advertised at hunclaimed ⊢
    generalize ((dependents asset plans).any fun plan =>
      retainsAssetsIndefinitely plan.state) = retained at hunclaimed ⊢
    split_ifs <;> simp_all
  have hagree := hagree hunclaimed
  have htime : timeUp asset reordered now = timeUp asset plans now := by
    rw [Bool.eq_iff_iff]
    constructor
    · intro h
      obtain ⟨plan, hplan, hrests, verified, hverified, hexpired⟩ := exists_expired_of_timeUp h
      exact timeUp_of_clocksAgree hagree (hperm.mem_iff.1 hplan) hrests hverified hexpired
    · intro h
      obtain ⟨plan, hplan, hrests, verified, hverified, hexpired⟩ := exists_expired_of_timeUp h
      exact timeUp_of_clocksAgree (hagree.of_perm hperm) (hperm.mem_iff.2 hplan) hrests hverified
        hexpired
  rw [htime]

theorem exists_perm_cons {plan : PlanRetention} (hplan : plan ∈ plans) :
    ∃ rest, (plan :: rest).Perm plans := by
  obtain ⟨before, after, rfl⟩ := append_of_mem hplan
  exact ⟨before ++ after, perm_middle.symm⟩

end Order

/-- **The preview is right exactly where the plans agree.** It calls removable only what may go,
whatever the order of the plans, if and only if, for every asset that nothing but its time keeps,
the verified plans that rest on it agree whether that has run out. -/
theorem previewSound_iff_clocksAgree (spell : Timestamp → String) (assets : List RecoveryAsset)
    (plans : List PlanRetention) (now : Timestamp) :
    PreviewSound spell assets plans now ↔
      ∀ asset ∈ assets, Unclaimed asset plans → ClocksAgree asset plans now := by
  have hzip (plans : List PlanRetention) (asset : RecoveryAsset) (entry : CleanupEntry) :
      (asset, entry) ∈ assets.zip (cleanupPreview spell assets plans now).entries ↔
        asset ∈ assets ∧ entry = entryFor spell asset plans now := by
    have hmap : assets.zip (cleanupPreview spell assets plans now).entries =
        assets.map fun asset => (asset, entryFor spell asset plans now) := by
      simp only [cleanupPreview]
      induction assets with
      | nil => rfl
      | cons head rest ih => simp [ih]
    rw [hmap, mem_map]
    constructor
    · rintro ⟨listed, hlisted, heq⟩
      obtain ⟨rfl, rfl⟩ := Prod.mk.inj heq
      exact ⟨hlisted, rfl⟩
    · rintro ⟨hlisted, rfl⟩
      exact ⟨asset, hlisted, rfl⟩
  constructor
  · rintro ⟨hspent, horder⟩ asset hasset hunclaimed plan hplan other hother hrests hotherRests
      verified verified' hverified hverified' hexpired
    -- list the plan whose time has run out first: the asset becomes removable
    obtain ⟨rest, hperm⟩ := exists_perm_cons hplan
    have hfirst : timeUp asset (plan :: rest) now = true := by
      have hhead : (dependents asset (plan :: rest)).findSome? (·.verifiedAt) = some verified := by
        simp [dependents, hrests, hverified]
      simp [timeUp, hhead, hexpired]
    have hunclaimed' : Unclaimed asset (plan :: rest) :=
      ⟨hunclaimed.occupies, hunclaimed.notHeld,
        fun plan hplan => hunclaimed.silent plan (hperm.mem_iff.1 hplan),
        fun plan hplan => hunclaimed.ordinary plan (hperm.mem_iff.1 hplan)⟩
    have hremovable : (entryFor spell asset (plan :: rest) now).verdict = .removable :=
      verdict_eq_removable_iff.2 ⟨hunclaimed', hfirst⟩
    have hverdict : (entryFor spell asset plans now).verdict = .removable := by
      have hall := horder (plan :: rest) hperm
      simp only [cleanupPreview, map_map] at hall
      have heq := map_inj_left.1 hall asset hasset
      exact heq.symm.trans hremovable
    exact (hspent asset _ ((hzip plans asset _).2 ⟨hasset, rfl⟩) hverdict).expired other hother
      hotherRests verified' hverified'
  · intro hagree
    constructor
    · intro asset entry hmem hverdict
      obtain ⟨hasset, rfl⟩ := (hzip plans asset entry).1 hmem
      obtain ⟨hunclaimed, htime⟩ := verdict_eq_removable_iff.1 hverdict
      obtain ⟨plan, hplan, hrests, verified, hverified, hexpired⟩ := exists_expired_of_timeUp htime
      refine ⟨hunclaimed, ⟨plan, hplan, hrests, by simp [hverified]⟩, ?_⟩
      intro other hother hotherRests verified' hverified'
      exact hagree asset hasset hunclaimed plan hplan other hother hrests hotherRests verified
        verified' hverified hverified' hexpired
    · intro reordered hperm
      simp only [cleanupPreview, map_map]
      exact map_congr_left fun asset hasset => verdict_eq_of_perm (hagree asset hasset) hperm

/-! ### A shared asset -/

/-- An asset that is kept for ten nanoseconds after a verification. -/
def sharedAsset : RecoveryAsset where
  id := ⟨"1", Eq.refl true⟩
  provider := "zfs"
  assetType := .zfsSnapshot
  reference := "tank/etc@ono"
  scope := ⟨"tank/etc", "dataset", ["/etc"], "host"⟩
  createdAt := 0
  sourcePlan := none
  state := .ready
  consistency := .crashConsistent
  restoreMethod := .selectiveFileRestore
  validation := none
  retention := ⟨10, false⟩
  cost := ⟨none, none, false, none, none, none, false, false, none⟩
  dependencies := []
  exclusions := []
  capturedState := none
  expiresAt := none
  sharesFailureDomain := false

/-- A closed plan that rests on the asset and was verified at an instant. -/
def restingPlan (plan : PlanId) (verified : Timestamp) : PlanRetention where
  plan := plan
  state := .closed
  verifiedAt := some verified
  assets := [sharedAsset.id]
  advertisesRecovery := false

/-- The start of the epoch and a few nanoseconds. -/
def nanosecond (n : Fin 1000) : Timestamp where
  nanos := n.val
  inRange := by
    have := n.isLt
    simp only [minTimestamp, maxTimestamp]
    omega

/-- Two plans share an asset: the first was verified at `0`, the second at `15`. At `20` the asset is
removable, although the second plan keeps it until `25`. -/
theorem not_previewSound_shared :
    ¬ ∀ (spell : Timestamp → String) (assets : List RecoveryAsset) (plans : List PlanRetention)
      (now : Timestamp), PreviewSound spell assets plans now := by
  intro h
  obtain ⟨hspent, -⟩ := h (fun _ => "") [sharedAsset]
    [restingPlan ⟨"a", by decide⟩ (nanosecond 0), restingPlan ⟨"b", by decide⟩ (nanosecond 15)]
    (nanosecond 20)
  have hlate := (hspent sharedAsset _ mem_cons_self rfl).expired
    (restingPlan ⟨"b", by decide⟩ (nanosecond 15)) (by simp) rfl (nanosecond 15) rfl
  exact absurd hlate (by decide)

end OnoSendai.Protection
