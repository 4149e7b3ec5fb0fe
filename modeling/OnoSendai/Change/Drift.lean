import OnoSendai.Change.Plan
import OnoSendai.Value.Equality

/-!
# Revalidation before an apply

Immediately before preparation every frozen target is looked for and every declared precondition is
compared with what the world says now. A target whose plan declares an existence precondition about
it, by identity or by label, is looked for with that one, else with one made up for it; the
preconditions that are existence facts about some target are then left out of the second loop.
-/

namespace OnoSendai

open List hiding getElem?_eq_some_iff

/-! ### Checking a precondition -/

/-- Compares what was observed with what was frozen. What could not be observed is no pass. -/
def Precondition.check (powi : ℕ → UInt64) (precondition : Precondition)
    (observed : Option Value) : DriftVerdict :=
  match observed with
  | none => .unknown
  | some value =>
    if value.sameData powi precondition.expected then .unchanged
    else if precondition.material then .material
    else .tolerated

/-- What revalidation found for one precondition. -/
def DriftFinding.new (precondition : Precondition) (verdict : DriftVerdict)
    (observed : Option Value) : DriftFinding where
  subject := precondition.subject
  field := precondition.field
  kind := precondition.kind
  verdict := verdict
  expected := precondition.expected
  observed := observed

/-! ### The report -/

/-- What revalidation concluded about a plan as a whole, in the order of severity. -/
inductive DriftVerdictSummary
  | clear
  | tolerated
  | unobservable
  | material
  | targetChanged

namespace DriftVerdictSummary

/-- The place of a conclusion in the order of severity. -/
def severity : DriftVerdictSummary → Nat
  | clear => 0
  | tolerated => 1
  | unobservable => 2
  | material => 3
  | targetChanged => 4

/-- The severer of two conclusions. -/
def worse (left right : DriftVerdictSummary) : DriftVerdictSummary :=
  if left.severity ≤ right.severity then right else left

/-- Whether a conclusion stops the plan before anything is prepared. -/
def blocksApply : DriftVerdictSummary → Bool
  | clear | tolerated => false
  | unobservable | material | targetChanged => true

end DriftVerdictSummary

/-- The conclusion that one verdict contributes. -/
def DriftVerdict.summary : DriftVerdict → DriftVerdictSummary
  | unchanged => .clear
  | tolerated => .tolerated
  | unknown => .unobservable
  | material => .material

/-- What revalidation found across a whole plan. -/
structure DriftReport where
  findings : List DriftFinding
  changedTargets : List String
  targetsChecked : Nat
  preconditionsChecked : Nat

namespace DriftReport

/-- The worst thing revalidation found. -/
def verdict (report : DriftReport) : DriftVerdictSummary :=
  if !report.changedTargets.isEmpty then .targetChanged
  else (report.findings.map (·.verdict.summary)).foldl DriftVerdictSummary.worse .clear

/-- Whether the plan stops here. -/
def blocksApply (report : DriftReport) : Bool :=
  report.verdict.blocksApply

end DriftReport

/-! ### Revalidation -/

/-- The field name a made-up existence check is recorded under. -/
def existenceField : String :=
  "exists"

/-- The existence check of a target whose plan declared none. -/
def existencePrecondition (target : FrozenTarget) : Precondition where
  kind := .existence
  subject := target.identity
  field := existenceField
  expected := .bool true
  material := true
  detail := "§7.1: the plan froze this object's identity, and apply re-resolves it"

/-- Whether a precondition is an existence fact about a target, by its identity or its label. -/
def Precondition.isExistenceOf (target : FrozenTarget) (precondition : Precondition) : Bool :=
  precondition.kind = .existence &&
    (precondition.subject = target.identity || precondition.subject = target.label)

namespace ChangePlan

variable (powi : ℕ → UInt64) (plan : ChangePlan) (observe : Precondition → Option Value)

/-- The preconditions that the actions of a plan declare, in order. -/
def declared : List Precondition :=
  plan.actions.flatMap (·.preconditions)

/-- The existence check a plan declares about a target, where an action declared one. -/
def declaredExistence (target : FrozenTarget) : Option Precondition :=
  plan.declared.find? (·.isExistenceOf target)

/-- Whether a precondition is an existence fact about some target of the plan. -/
def isTargetExistence (precondition : Precondition) : Bool :=
  plan.targets.any fun target => precondition.isExistenceOf target

/-- Looks for one target. -/
def checkTarget (target : FrozenTarget) (report : DriftReport) : DriftReport :=
  let check := (plan.declaredExistence target).getD (existencePrecondition target)
  let observed := observe check
  let report := if (plan.declaredExistence target).isSome then
      { report with preconditionsChecked := report.preconditionsChecked + 1 }
    else report
  match check.check powi observed with
  | .unchanged | .tolerated => report
  | .material => { report with changedTargets := report.changedTargets ++ [target.identity] }
  | .unknown =>
    { report with findings := report.findings ++ [.new check .unknown observed] }

/-- Checks one declared precondition, unless it is an existence fact about some target. -/
def checkDeclared (precondition : Precondition) (report : DriftReport) : DriftReport :=
  if plan.isTargetExistence precondition then report
  else
    let observed := observe precondition
    let verdict := precondition.check powi observed
    let report := { report with preconditionsChecked := report.preconditionsChecked + 1 }
    if verdict = .unchanged then report
    else { report with findings := report.findings ++ [.new precondition verdict observed] }

/-- Looks for every target and checks every precondition of a plan. -/
def revalidate : DriftReport :=
  let opened : DriftReport := {
    findings := []
    changedTargets := []
    targetsChecked := plan.targets.length
    preconditionsChecked := 0 }
  let looked := plan.targets.foldl (fun report target => plan.checkTarget powi observe target report)
    opened
  plan.declared.foldl (fun report precondition =>
    plan.checkDeclared powi observe precondition report) looked

/-! ### What is checked -/

/-- The places of the declared preconditions that revalidation compares: for each target that of the
one it is looked for with, then those that are no existence facts about targets. -/
def counted : List Nat :=
  plan.targets.filterMap (fun target => plan.declared.findIdx? (·.isExistenceOf target)) ++
    (plan.declared.zipIdx.filter fun entry => !plan.isTargetExistence entry.1).map (·.2)

/-- A declared precondition, or an existence check about a target, held: what was observed is what
was frozen, or a move that was declared harmless. -/
def Held (precondition : Precondition) : Prop :=
  precondition.check powi (observe precondition) = .unchanged ∨
    precondition.check powi (observe precondition) = .tolerated

/-- What a revalidation is meant to establish: where it lets the apply go on, every declared
precondition held and every target has an existence check, declared or made up, that held; and every
declared precondition is among those that the report counts. -/
structure MissesNothing : Prop where
  declared_held : (plan.revalidate powi observe).blocksApply = false →
    ∀ action ∈ plan.actions, ∀ precondition ∈ action.preconditions, Held powi observe precondition
  target_held : (plan.revalidate powi observe).blocksApply = false →
    ∀ target ∈ plan.targets, ∃ check,
      (check ∈ plan.declared ∧ check.isExistenceOf target = true ∨
        check = existencePrecondition target) ∧ Held powi observe check
  all_counted : ∀ n < plan.declared.length, n ∈ plan.counted
  checked_eq : (plan.revalidate powi observe).preconditionsChecked = plan.counted.length

/-- Every declared existence fact about a target is the first one about some target. -/
def ExistenceFirst : Prop :=
  ∀ n precondition, plan.declared[n]? = some precondition →
    plan.isTargetExistence precondition = true →
      ∃ target ∈ plan.targets, precondition.isExistenceOf target = true ∧
        ∀ (m : Nat) (earlier : Precondition), m < n → plan.declared[m]? = some earlier →
          earlier.isExistenceOf target = false

end ChangePlan

/-! ### What lets an apply go on -/

namespace DriftVerdictSummary

theorem blocksApply_worse (left right : DriftVerdictSummary) :
    (worse left right).blocksApply = (left.blocksApply || right.blocksApply) := by
  cases left <;> cases right <;> rfl

theorem blocksApply_foldl_worse (first : DriftVerdictSummary) (rest : List DriftVerdictSummary) :
    (rest.foldl worse first).blocksApply = (first.blocksApply || rest.any (·.blocksApply)) := by
  induction rest generalizing first with
  | nil => simp
  | cons next rest ih => rw [foldl_cons, ih, blocksApply_worse, any_cons, Bool.or_assoc]

end DriftVerdictSummary

theorem DriftVerdict.blocksApply_summary (verdict : DriftVerdict) :
    verdict.summary.blocksApply = verdict.blocksApply := by
  cases verdict <;> rfl

theorem DriftVerdict.blocksApply_eq_false_iff {verdict : DriftVerdict} :
    verdict.blocksApply = false ↔ verdict = .unchanged ∨ verdict = .tolerated := by
  cases verdict <;> simp [blocksApply]

variable {report : DriftReport}

theorem DriftReport.blocksApply_eq_false_iff :
    report.blocksApply = false ↔ report.changedTargets = [] ∧
      ∀ finding ∈ report.findings, finding.verdict.blocksApply = false := by
  rw [blocksApply, verdict]
  cases hchanged : report.changedTargets with
  | cons target rest => simp [DriftVerdictSummary.blocksApply]
  | nil =>
    simp only [isEmpty_nil, Bool.not_true, Bool.false_eq_true, if_false, true_and,
      DriftVerdictSummary.blocksApply_foldl_worse]
    rw [show DriftVerdictSummary.clear.blocksApply = false from rfl]
    simp [DriftVerdict.blocksApply_summary]

theorem DriftReport.blocksApply_append {finding : DriftFinding} :
    DriftReport.blocksApply { report with findings := report.findings ++ [finding] } = false ↔
      report.blocksApply = false ∧ finding.verdict.blocksApply = false := by
  simp [DriftReport.blocksApply_eq_false_iff, or_imp, forall_and, and_assoc]

namespace ChangePlan

variable {powi : ℕ → UInt64} {plan : ChangePlan} {observe : Precondition → Option Value}

/-- What a target is looked for with. -/
def targetCheck (plan : ChangePlan) (target : FrozenTarget) : Precondition :=
  (plan.declaredExistence target).getD (existencePrecondition target)

variable {precondition : Precondition}

theorem held_iff :
    Held powi observe precondition ↔
      (precondition.check powi (observe precondition)).blocksApply = false :=
  DriftVerdict.blocksApply_eq_false_iff.symm

theorem blocksApply_checkTarget {target : FrozenTarget} :
    (plan.checkTarget powi observe target report).blocksApply = false ↔
      report.blocksApply = false ∧ Held powi observe (plan.targetCheck target) := by
  simp only [DriftReport.blocksApply_eq_false_iff, held_iff, checkTarget, targetCheck]
  generalize (plan.declaredExistence target).getD (existencePrecondition target) = check
  cases hverdict : check.check powi (observe check) <;>
    split_ifs <;> simp [DriftVerdict.blocksApply, DriftFinding.new]

/-- Checking a precondition that is no existence fact about a target lets the apply go on when the
report did and it held. -/
theorem blocksApply_checkDeclared :
    (plan.checkDeclared powi observe precondition report).blocksApply = false ↔
      report.blocksApply = false ∧
        (plan.isTargetExistence precondition = false → Held powi observe precondition) := by
  rw [checkDeclared]
  cases plan.isTargetExistence precondition with
  | true => simp
  | false =>
    have hheld := @held_iff powi observe precondition
    by_cases hunchanged : precondition.check powi (observe precondition) = .unchanged
    · rw [if_neg Bool.false_ne_true, if_pos hunchanged]
      exact ⟨fun h => ⟨h, fun _ => Or.inl hunchanged⟩, And.left⟩
    · rw [if_neg Bool.false_ne_true, if_neg hunchanged, DriftReport.blocksApply_append]
      exact ⟨fun h => ⟨h.1, fun _ => hheld.2 h.2⟩, fun h => ⟨h.1, hheld.1 (h.2 rfl)⟩⟩

/-- **Revalidation lets the apply go on** exactly when every check it makes held. -/
theorem blocksApply_revalidate :
    (plan.revalidate powi observe).blocksApply = false ↔
      (∀ target ∈ plan.targets, Held powi observe (plan.targetCheck target)) ∧
        ∀ precondition ∈ plan.declared, plan.isTargetExistence precondition = false →
          Held powi observe precondition := by
  have hdeclared (declared : List Precondition) (report : DriftReport) :
      (declared.foldl (fun report precondition =>
          plan.checkDeclared powi observe precondition report) report).blocksApply = false ↔
        report.blocksApply = false ∧ ∀ precondition ∈ declared,
          plan.isTargetExistence precondition = false → Held powi observe precondition := by
    induction declared generalizing report with
    | nil => simp
    | cons precondition rest ih =>
      rw [List.foldl_cons, ih, blocksApply_checkDeclared, List.forall_mem_cons, and_assoc]
  have htargets (targets : List FrozenTarget) (report : DriftReport) :
      (targets.foldl (fun report target =>
          plan.checkTarget powi observe target report) report).blocksApply = false ↔
        report.blocksApply = false ∧ ∀ target ∈ targets,
          Held powi observe (plan.targetCheck target) := by
    induction targets generalizing report with
    | nil => simp
    | cons target rest ih =>
      rw [List.foldl_cons, ih, blocksApply_checkTarget, List.forall_mem_cons, and_assoc]
  rw [revalidate, hdeclared, htargets]
  simp [DriftReport.blocksApply_eq_false_iff]

/-! ### What is counted -/

theorem mem_counted_iff {n : Nat} :
    n ∈ plan.counted ↔
      (∃ target ∈ plan.targets, plan.declared.findIdx? (·.isExistenceOf target) = some n) ∨
        ∃ precondition, plan.declared[n]? = some precondition ∧
          plan.isTargetExistence precondition = false := by
  simp only [counted, mem_append, mem_filterMap, mem_map, mem_filter,
    Prod.exists, mem_zipIdx_iff_getElem?, Bool.not_eq_true']
  simp

/-- A place is that of the first existence fact about a target. -/
theorem findIdx?_isExistenceOf_iff {target : FrozenTarget} {n : Nat} :
    plan.declared.findIdx? (·.isExistenceOf target) = some n ↔
      ∃ precondition, plan.declared[n]? = some precondition ∧
        precondition.isExistenceOf target = true ∧
        ∀ (m : Nat) (earlier : Precondition), m < n → plan.declared[m]? = some earlier →
          earlier.isExistenceOf target = false := by
  rw [findIdx?_eq_some_iff_getElem]
  constructor
  · rintro ⟨hn, hfirst, hbefore⟩
    refine ⟨_, List.getElem?_eq_getElem hn, hfirst, fun m earlier hm hearlier => ?_⟩
    obtain ⟨hlt, rfl⟩ := List.getElem?_eq_some_iff.1 hearlier
    simpa using hbefore m hm
  · rintro ⟨precondition, hprecondition, hfirst, hbefore⟩
    obtain ⟨hn, rfl⟩ := List.getElem?_eq_some_iff.1 hprecondition
    refine ⟨hn, hfirst, fun m hm => ?_⟩
    simpa using hbefore m _ hm (List.getElem?_eq_getElem (Nat.lt_trans hm hn))

/-- Every declared precondition is counted exactly when the existence facts about targets come
first. -/
theorem all_counted_iff : (∀ n < plan.declared.length, n ∈ plan.counted) ↔ plan.ExistenceFirst := by
  simp only [mem_counted_iff, findIdx?_isExistenceOf_iff]
  constructor
  · intro h n precondition hprecondition hexistence
    rcases h n (List.getElem?_eq_some_iff.1 hprecondition).1 with
      ⟨target, htarget, found, hfound, hfirst⟩ | ⟨other, hother, hnone⟩
    · obtain rfl := Option.some.inj (hprecondition.symm.trans hfound)
      exact ⟨target, htarget, hfirst⟩
    · obtain rfl := Option.some.inj (hprecondition.symm.trans hother)
      rw [hexistence] at hnone
      cases hnone
  · intro h n hn
    have hprecondition := getElem?_eq_getElem hn
    cases hexistence : plan.isTargetExistence plan.declared[n] with
    | false => exact Or.inr ⟨_, hprecondition, hexistence⟩
    | true =>
      obtain ⟨target, htarget, hfirst⟩ := h n _ hprecondition hexistence
      exact Or.inl ⟨target, htarget, _, hprecondition, hfirst⟩

theorem preconditionsChecked_checkTarget {target : FrozenTarget} :
    (plan.checkTarget powi observe target report).preconditionsChecked =
      report.preconditionsChecked + if (plan.declaredExistence target).isSome then 1 else 0 := by
  simp only [checkTarget]
  generalize (plan.declaredExistence target).getD (existencePrecondition target) = check
  cases check.check powi (observe check) <;> split_ifs <;> rfl

theorem preconditionsChecked_checkDeclared :
    (plan.checkDeclared powi observe precondition report).preconditionsChecked =
      report.preconditionsChecked + if !plan.isTargetExistence precondition then 1 else 0 := by
  rw [checkDeclared]
  cases plan.isTargetExistence precondition with
  | true => rfl
  | false =>
    by_cases hunchanged : precondition.check powi (observe precondition) = .unchanged
    · rw [if_neg Bool.false_ne_true, if_pos hunchanged]
      rfl
    · rw [if_neg Bool.false_ne_true, if_neg hunchanged]
      rfl

/-- A counter that every step of a loop over a list moves by one, where the member meets a
condition, has moved by the number of members that do. -/
theorem counter_foldl {α β : Type} {counter : β → Nat} {step : β → α → β} {p : α → Bool}
    (h : ∀ state item, counter (step state item) = counter state + if p item then 1 else 0)
    (items : List α) (state : β) :
    counter (items.foldl step state) = counter state + items.countP p := by
  induction items generalizing state with
  | nil => rfl
  | cons item rest ih => rw [foldl_cons, ih, h, countP_cons]; omega

/-- The number of preconditions a report gives is that of the places that revalidation compares. -/
theorem preconditionsChecked_revalidate (powi : ℕ → UInt64) (plan : ChangePlan)
    (observe : Precondition → Option Value) :
    (plan.revalidate powi observe).preconditionsChecked = plan.counted.length := by
  have htargets : (plan.targets.filterMap fun target =>
      plan.declared.findIdx? (·.isExistenceOf target)).length =
        plan.targets.countP fun target => (plan.declaredExistence target).isSome := by
    rw [length_filterMap_eq_countP]
    exact countP_congr fun target _ => by
      rw [declaredExistence, findIdx?_isSome, find?_isSome, any_eq_true]
  have hdeclared : (plan.declared.zipIdx.filter fun entry =>
      !plan.isTargetExistence entry.1).length =
        plan.declared.countP fun precondition => !plan.isTargetExistence precondition := by
    rw [← countP_eq_length_filter, ← zipIdx_map_fst 0 plan.declared, countP_map,
      zipIdx_map_fst]
    rfl
  have hlook (report : DriftReport) (target : FrozenTarget) :=
    @preconditionsChecked_checkTarget report powi plan observe target
  have hcheck (report : DriftReport) (precondition : Precondition) :=
    @preconditionsChecked_checkDeclared report powi plan observe precondition
  rw [revalidate, @counter_foldl _ _ DriftReport.preconditionsChecked _ _ hcheck,
    @counter_foldl _ _ DriftReport.preconditionsChecked _ _ hlook, counted, length_append,
    length_map, htargets, hdeclared, Nat.zero_add]

theorem targetCheck_cases (target : FrozenTarget) :
    plan.targetCheck target ∈ plan.declared ∧
        (plan.targetCheck target).isExistenceOf target = true ∨
      plan.targetCheck target = existencePrecondition target := by
  cases hdeclared : plan.declaredExistence target with
  | none => exact Or.inr (by rw [targetCheck, hdeclared]; rfl)
  | some check =>
    have hcheck : plan.targetCheck target = check := by rw [targetCheck, hdeclared]; rfl
    rw [hcheck]
    exact Or.inl ⟨mem_of_find?_eq_some hdeclared, find?_some hdeclared⟩

/-- **Revalidation misses nothing** exactly when every declared existence fact about a target is the
first one about some target. -/
theorem revalidate_missesNothing_iff (powi : ℕ → UInt64) (plan : ChangePlan)
    (observe : Precondition → Option Value) :
    plan.MissesNothing powi observe ↔ plan.ExistenceFirst := by
  constructor
  · exact fun h => all_counted_iff.1 h.all_counted
  · intro h
    refine ⟨fun hgoes action haction precondition hprecondition => ?_,
      fun hgoes target htarget => ⟨_, targetCheck_cases target, ?_⟩, all_counted_iff.2 h,
      preconditionsChecked_revalidate powi plan observe⟩
    · have hchecked := blocksApply_revalidate.1 hgoes
      have hdeclared : precondition ∈ plan.declared :=
        mem_flatMap.2 ⟨action, haction, hprecondition⟩
      cases hexistence : plan.isTargetExistence precondition with
      | false => exact hchecked.2 precondition hdeclared hexistence
      | true =>
        -- It is the first existence fact about some target, which was looked for with it.
        obtain ⟨n, hn, rfl⟩ := getElem_of_mem hdeclared
        obtain ⟨target, htarget, hfirst⟩ := h n _ (getElem?_eq_getElem hn) hexistence
        have hplace := findIdx?_isExistenceOf_iff.2 ⟨_, getElem?_eq_getElem hn, hfirst⟩
        have hcheck : plan.targetCheck target = plan.declared[n] := by
          rw [targetCheck, declaredExistence, find?_eq_bind_findIdx?_getElem?, hplace,
            Option.bind_some, getElem?_eq_getElem hn, Option.getD_some]
        exact hcheck ▸ hchecked.1 target htarget
    · exact (blocksApply_revalidate.1 hgoes).1 target htarget

/-- A plan about one service, with an action that declares some preconditions. -/
def aboutService (sha256 : Sha256) (render : Renderings) (preconditions : List Precondition) :
    ChangePlan :=
  let draft := ChangePlan.draft sha256 render ⟨"restart nginx", "restart nginx"⟩ "s" 0
  { draft with
    targets := [⟨"ono.service/1", "systemd:nginx.service", "nginx.service", none, none, none, none⟩]
    actions := [{ PlanAction.new sha256 draft.id 1 .mutate "restart nginx.service"
        (.program "/usr/bin/systemctl" []) with preconditions }] }

/-- The service still has its identity. -/
def sameService : Precondition where
  kind := .existence
  subject := "systemd:nginx.service"
  field := "exists"
  expected := .bool true
  material := true
  detail := ""

/-- The unit still comes from the same file. -/
def sameUnitFile : Precondition where
  kind := .existence
  subject := "nginx.service"
  field := "unit-file"
  expected := .string "/lib/systemd/system/nginx.service"
  material := true
  detail := ""

/-- **A second existence fact about a target goes unchecked.** Its unit file is another one, and
revalidation lets the apply go on. -/
theorem not_missesNothing_unitFile :
    ¬ ∀ (powi : ℕ → UInt64) (plan : ChangePlan) (observe : Precondition → Option Value),
      plan.MissesNothing powi observe := by
  intro h
  let sha256 : Sha256 := fun _ => Vector.replicate 32 0
  let render : Renderings :=
    { float := fun _ => "", path := fun _ => "", ip := fun _ => "", timestamp := fun _ => "",
      debug := fun _ => "", duration := fun _ => "" }
  let observe : Precondition → Option Value := fun precondition =>
    if precondition.field = "unit-file" then some (.string "/etc/systemd/system/nginx.service")
    else some (.bool true)
  have hheld := (h (fun _ => 0) (aboutService sha256 render [sameService, sameUnitFile])
    observe).declared_held (by decide +kernel) _ mem_cons_self sameUnitFile
      (mem_cons_of_mem _ mem_cons_self)
  revert hheld
  unfold Held
  decide +kernel

end ChangePlan

end OnoSendai
