import Mathlib
import OnoSendai.Lib.Separated
import OnoSendai.Change.Seal

/-!
# What a seal covers

The digest of a plan is taken over one text: named sections, each put together from units with a
separator after each of them and nothing length-prefixed. This file reads the text back. It
separates what the text determines from what it leaves open, and shows that two plans with one
text have the same terms exactly when they agree on the parts that are left open.
-/

namespace OnoSendai

open Separated List Vocabulary Nat
open String hiding append_assoc intercalate_cons_cons length map_map

/-! ### Separator-free texts -/

/-- A text that contains neither of the two separators. -/
def SeparatorFree (text : String) : Prop :=
  unitSeparator ∉ text.toList ∧ sectionSeparator ∉ text.toList

instance (text : String) : Decidable (SeparatorFree text) :=
  inferInstanceAs (Decidable (_ ∧ _))

theorem SeparatorFree.append {first second : String} (h : SeparatorFree first)
    (h' : SeparatorFree second) : SeparatorFree (first ++ second) := by
  simp only [SeparatorFree, toList_append, mem_append, not_or] at *
  exact ⟨⟨h.1, h'.1⟩, h.2, h'.2⟩

theorem separatorFree_of_all {text : String} (test : Char → Bool)
    (hall : ∀ c ∈ text.toList, test c = true) (hunit : test unitSeparator = false)
    (hsection : test sectionSeparator = false) : SeparatorFree text := by
  refine ⟨fun hmem => ?_, fun hmem => ?_⟩
  · exact absurd (hall _ hmem) (by simp [hunit])
  · exact absurd (hall _ hmem) (by simp [hsection])

theorem Vocabulary.forall_asStr {α : Type} [Vocabulary α] {P : String → Prop}
    (h : ∀ word ∈ (all : List α).map asStr, P word) (member : α) : P (asStr member) :=
  h _ (mem_map_of_mem (mem_all member))

theorem separatorFree_flagText (flag : Bool) : SeparatorFree (flagText flag) := by
  cases flag <;> decide

theorem isDigit_of_mem_toString {n : Nat} {c : Char} (h : c ∈ (toString n).toList) :
    c.isDigit = true := by
  rw [Nat.toString_eq_repr, Nat.repr, String.toList_ofList] at h
  exact Nat.isDigit_of_mem_toDigits (by omega) (by omega) h

theorem separatorFree_toString (n : Nat) : SeparatorFree (toString n) :=
  separatorFree_of_all Char.isDigit (fun _ => isDigit_of_mem_toString) (by decide) (by decide)

theorem all_isHexChar_of_isHex {text : String} (h : isHex text = true) :
    ∀ c ∈ text.toList, isHexChar c = true := by
  simp only [isHex, Bool.and_eq_true, all_eq_true] at h
  exact h.2

theorem HexId.separatorFree_body {kind : IdKind} (id : HexId kind) : SeparatorFree id.body :=
  separatorFree_of_all isHexChar (all_isHexChar_of_isHex id.isHex_body) (by decide) (by decide)

/-! ### Units -/

@[simp]
theorem unitTerminated_nil : unitTerminated [] = "" :=
  rfl

@[simp]
theorem unitTerminated_append (units units' : List String) :
    unitTerminated (units ++ units') = unitTerminated units ++ unitTerminated units' := by
  simp [unitTerminated, join_append]

theorem toList_unitTerminated (units : List String) :
    (unitTerminated units).toList = terminated unitSeparator (units.map toList) := by
  simp [unitTerminated, toList_join, terminated, flatMap_map]

theorem unitTerminated_inj {units units' : List String}
    (h : ∀ unit ∈ units, SeparatorFree unit) (h' : ∀ unit ∈ units', SeparatorFree unit)
    (heq : unitTerminated units = unitTerminated units') : units = units' := by
  have hchars := congrArg toList heq
  rw [toList_unitTerminated, toList_unitTerminated, terminated_inj] at hchars
  · exact (map_injective_iff.2 fun _ _ => toList_inj.1) hchars
  · simpa using fun unit hunit => (h unit hunit).1
  · simpa using fun unit hunit => (h' unit hunit).1

theorem push_unitJoin (unit : String) (units : List String) :
    (unitJoin (unit :: units)).push unitSeparator = unitTerminated (unit :: units) := by
  induction units generalizing unit with
  | nil => simp [unitJoin, unitTerminated, join_cons]
  | cons next units ih =>
    have h := ih next
    simp only [unitJoin, unitTerminated, map_cons, join_cons,
      String.intercalate_cons_cons] at h ⊢
    rw [← h]
    refine toList_inj.1 ?_
    simp

theorem unitTerminated_map {α : Type} {text : α → String} {units : α → List String}
    (h : ∀ item, (text item).push unitSeparator = unitTerminated (units item)) (items : List α) :
    unitTerminated (items.map text) = unitTerminated (items.flatMap units) := by
  induction items with
  | nil => rfl
  | cons item items ih =>
    rw [flatMap_cons, unitTerminated_append, ← ih, ← h]
    simp [unitTerminated, join_cons]

/-! ### The units of each contribution -/

/-- The units of an argument vector: an empty vector still contributes one. -/
def argvUnits : List String → List String
  | [] => [""]
  | argv => argv

theorem push_unitJoin_argv (argv : List String) :
    (unitJoin argv).push unitSeparator = unitTerminated (argvUnits argv) := by
  cases argv with
  | nil => rfl
  | cons argument argv => exact push_unitJoin argument argv

theorem argvUnits_inj {argv argv' : List String} (hlength : argv.length = argv'.length)
    (h : argvUnits argv = argvUnits argv') : argv = argv' := by
  cases argv with
  | nil => exact (length_eq_zero_iff.1 hlength.symm).symm
  | cons argument argv =>
    cases argv' with
    | nil => simp at hlength
    | cons argument' argv' => exact h

/-- The units of a target. -/
def FrozenTarget.units (target : FrozenTarget) : List String :=
  [target.schema, target.identity, target.host.getD ""]

theorem FrozenTarget.push_digestText (target : FrozenTarget) :
    target.digestText.push unitSeparator = unitTerminated target.units :=
  push_unitJoin _ _

theorem FrozenTarget.length_units (target : FrozenTarget) : target.units.length = 2 + 1 :=
  rfl

/-- The units of a contract. -/
def VerificationContract.units (contract : VerificationContract) : List String :=
  [contract.id.body, asStr contract.class', contract.subject, contract.expression,
    toString (contract.timeout / 1000000)]

theorem VerificationContract.push_digestText (contract : VerificationContract) :
    contract.digestText.push unitSeparator = unitTerminated contract.units :=
  push_unitJoin _ _

theorem VerificationContract.length_units (contract : VerificationContract) :
    contract.units.length = 4 + 1 :=
  rfl

/-- The units of an effect. -/
def ProposedEffect.units (effect : ProposedEffect) : List String :=
  [effect.id.body, asStr effect.domain, asStr effect.kind,
    asStr effect.confidence, effect.object.getD "", flagText effect.irreversible]

theorem ProposedEffect.push_digestText (effect : ProposedEffect) :
    effect.digestText.push unitSeparator = unitTerminated effect.units :=
  push_unitJoin _ _

section Units

variable (render : Renderings)

/-- The units of a precondition. -/
def Precondition.units (precondition : Precondition) : List String :=
  [asStr precondition.kind, precondition.subject, precondition.field,
    valueText render precondition.expected, flagText precondition.material]

theorem Precondition.push_digestText (precondition : Precondition) :
    (precondition.digestText render).push unitSeparator =
      unitTerminated (precondition.units render) :=
  push_unitJoin _ _

/-- The units of an execution. -/
def Execution.units : Execution → List String
  | .providerAction provider operation arguments
  | .recoveryOperation provider operation arguments =>
    provider :: operation :: arguments.map (Execution.argumentText render)
  | .program path argv => "program" :: path :: argvUnits argv
  | .opaqueAction description path argv =>
    "opaque" :: description :: path.getD "" :: argvUnits argv

theorem Execution.push_digestText (execution : Execution) :
    (execution.digestText render).push unitSeparator = unitTerminated (execution.units render) := by
  have hjoin : ∀ (units : List String) (argv : List String), units ≠ [] →
      (unitJoin (units ++ [unitJoin argv])).push unitSeparator =
        unitTerminated (units ++ argvUnits argv) := by
    intro units argv hne
    obtain ⟨unit, units, rfl⟩ := exists_cons_of_ne_nil hne
    rw [cons_append, push_unitJoin, ← cons_append, unitTerminated_append,
      unitTerminated_append, ← push_unitJoin_argv]
    simp [unitTerminated, join_cons]
  cases execution with
  | providerAction provider operation arguments => exact push_unitJoin _ _
  | recoveryOperation provider operation arguments => exact push_unitJoin _ _
  | program path argv => exact hjoin ["program", path] argv (by simp)
  | opaqueAction description path argv =>
    exact hjoin ["opaque", description, path.getD ""] argv (by simp)

/-- The units of an action. -/
def PlanAction.units (action : PlanAction) : List String :=
  [action.id.body, asStr action.role, action.target.getD ""] ++
    action.execution.units render ++
    [asStr action.idempotency, flagText action.requiresPrivilege] ++
    action.dependsOn.map (·.body) ++
    action.preconditions.flatMap (·.units render) ++
    action.effects.flatMap (·.units)

theorem PlanAction.push_digestText (action : PlanAction) :
    (action.digestText render).push unitSeparator = unitTerminated (action.units render) := by
  have hexecution : unitTerminated [action.execution.digestText render] =
      unitTerminated (action.execution.units render) := by
    rw [← Execution.push_digestText]
    simp [unitTerminated, String.join_cons]
  refine (push_unitJoin _ _).trans ?_
  change unitTerminated ([action.id.body, asStr action.role, action.target.getD ""] ++
    [action.execution.digestText render] ++
    [asStr action.idempotency, flagText action.requiresPrivilege] ++
    action.dependsOn.map (·.body) ++ action.preconditions.map (·.digestText render) ++
    action.effects.map (·.digestText)) = _
  simp only [unitTerminated_append, units, hexecution,
    unitTerminated_map (Precondition.push_digestText render),
    unitTerminated_map ProposedEffect.push_digestText]

end Units

/-- The units of a risk assessment. -/
def RiskAssessment.units (risk : RiskAssessment) : List String :=
  [asStr risk.classify, flagText risk.acceptedRisk,
    flagText risk.acceptedIrreversible] ++ risk.findings.map (·.digestText)

/-! ### Plans whose texts are free of separators -/

section Texts

variable (render : Renderings)

/-- The texts of an execution. -/
def Execution.texts : Execution → List String
  | .providerAction provider operation arguments
  | .recoveryOperation provider operation arguments =>
    provider :: operation ::
      arguments.flatMap fun argument => [argument.1, valueText render argument.2]
  | .program path argv => path :: argv
  | .opaqueAction description path argv => description :: path.getD "" :: argv

/-- The texts of an action. -/
def PlanAction.texts (action : PlanAction) : List String :=
  [action.target.getD ""] ++ action.execution.texts render ++
    (action.preconditions.flatMap fun precondition =>
      [precondition.subject, precondition.field, valueText render precondition.expected]) ++
    action.effects.map fun effect => effect.object.getD ""

/-- The texts a plan holds in the fields its digest reads, values in their canonical rendering. -/
def ChangePlan.texts (plan : ChangePlan) : List String :=
  [plan.intent.text] ++ plan.targets.flatMap (·.units) ++
    plan.actions.flatMap (·.texts render) ++
    (plan.providers.flatMap fun binding => [binding.id, binding.version]) ++
    (plan.verification.contracts.flatMap fun contract =>
      [contract.subject, contract.expression]) ++
    plan.risk.findings.map (·.rule)

/-- A plan none of whose texts contains a separator. -/
def ChangePlan.SeparatorFree (plan : ChangePlan) : Prop :=
  ∀ text ∈ plan.texts render, OnoSendai.SeparatorFree text

end Texts

section Free

variable {render : Renderings}

theorem Execution.separatorFree_units {execution : Execution}
    (h : ∀ text ∈ execution.texts render, SeparatorFree text) :
    ∀ unit ∈ execution.units render, SeparatorFree unit := by
  have hargv : ∀ {argv : List String}, (∀ text ∈ argv, SeparatorFree text) →
      ∀ unit ∈ argvUnits argv, SeparatorFree unit := by
    intro argv hfree
    cases argv with
    | nil => simpa [argvUnits] using (by decide : SeparatorFree "")
    | cons argument argv => exact hfree
  have harguments : ∀ {arguments : List (String × Value)},
      (∀ text ∈ arguments.flatMap fun argument => [argument.1, valueText render argument.2],
        SeparatorFree text) →
      ∀ unit ∈ arguments.map (Execution.argumentText render), SeparatorFree unit := by
    intro arguments hfree unit hunit
    obtain ⟨argument, hmem, rfl⟩ := mem_map.1 hunit
    have hname := hfree argument.1 (mem_flatMap.2 ⟨argument, hmem, by simp⟩)
    have hvalue := hfree (valueText render argument.2)
      (mem_flatMap.2 ⟨argument, hmem, by simp⟩)
    exact (hname.append (by decide : SeparatorFree "=")).append hvalue
  cases execution with
  | providerAction provider operation arguments =>
    simp only [texts, units, forall_mem_cons] at h ⊢
    exact ⟨h.1, h.2.1, harguments h.2.2⟩
  | recoveryOperation provider operation arguments =>
    simp only [texts, units, forall_mem_cons] at h ⊢
    exact ⟨h.1, h.2.1, harguments h.2.2⟩
  | program path argv =>
    simp only [texts, units, forall_mem_cons] at h ⊢
    exact ⟨by decide, h.1, hargv h.2⟩
  | opaqueAction description path argv =>
    simp only [texts, units, forall_mem_cons] at h ⊢
    exact ⟨by decide, h.1, h.2.1, hargv h.2.2⟩

theorem Precondition.separatorFree_units {precondition : Precondition}
    (hsubject : SeparatorFree precondition.subject) (hfield : SeparatorFree precondition.field)
    (hexpected : SeparatorFree (valueText render precondition.expected)) :
    ∀ unit ∈ precondition.units render, SeparatorFree unit := by
  have hkind := forall_asStr (P := SeparatorFree) (by decide) precondition.kind
  simp [units, hkind, hsubject, hfield, hexpected, separatorFree_flagText]

theorem ProposedEffect.separatorFree_units {effect : ProposedEffect}
    (hobject : SeparatorFree (effect.object.getD "")) :
    ∀ unit ∈ effect.units, SeparatorFree unit := by
  have hdomain := forall_asStr (P := SeparatorFree) (by decide) effect.domain
  have hkind := forall_asStr (P := SeparatorFree) (by decide) effect.kind
  have hconfidence := forall_asStr (P := SeparatorFree) (by decide) effect.confidence
  simp [units, hdomain, hkind, hconfidence, hobject, separatorFree_flagText,
    HexId.separatorFree_body]

theorem PlanAction.separatorFree_units {action : PlanAction}
    (h : ∀ text ∈ action.texts render, SeparatorFree text) :
    ∀ unit ∈ action.units render, SeparatorFree unit := by
  simp only [texts, forall_mem_append, forall_mem_cons, forall_mem_map,
    forall_mem_flatMap] at h
  obtain ⟨⟨⟨⟨htarget, -⟩, hexecution⟩, hpreconditions⟩, heffects⟩ := h
  have hrole := forall_asStr (P := SeparatorFree) (by decide) action.role
  have hidempotency := forall_asStr (P := SeparatorFree) (by decide) action.idempotency
  simp only [units, forall_mem_append, forall_mem_map, forall_mem_flatMap]
  refine ⟨⟨⟨⟨⟨?_, Execution.separatorFree_units hexecution⟩, ?_⟩, ?_⟩, ?_⟩, ?_⟩
  · simp [hrole, htarget, HexId.separatorFree_body]
  · simp [hidempotency, separatorFree_flagText]
  · exact fun id _ => id.separatorFree_body
  · intro precondition hmem
    obtain ⟨hsubject, hfield, hexpected, -⟩ := hpreconditions precondition hmem
    exact Precondition.separatorFree_units hsubject hfield hexpected
  · exact fun effect hmem => ProposedEffect.separatorFree_units (heffects effect hmem)

theorem VerificationContract.separatorFree_units {contract : VerificationContract}
    (hsubject : SeparatorFree contract.subject)
    (hexpression : SeparatorFree contract.expression) :
    ∀ unit ∈ contract.units, SeparatorFree unit := by
  have hclass := forall_asStr (P := SeparatorFree) (by decide) contract.class'
  simp only [units, forall_mem_cons, not_mem_nil, false_imp_iff, implies_true, and_true]
  exact ⟨contract.id.separatorFree_body, hclass, hsubject, hexpression, separatorFree_toString _⟩

theorem RiskAssessment.separatorFree_units {risk : RiskAssessment}
    (h : ∀ finding ∈ risk.findings, SeparatorFree finding.rule) :
    ∀ unit ∈ risk.units, SeparatorFree unit := by
  have hclassify := forall_asStr (P := SeparatorFree) (by decide) risk.classify
  simp only [units, forall_mem_append, forall_mem_map]
  refine ⟨by simp [hclassify, separatorFree_flagText], fun finding hmem => ?_⟩
  have hdimension := forall_asStr (P := SeparatorFree) (by decide) finding.dimension
  have hclass := forall_asStr (P := SeparatorFree) (by decide) finding.class'
  have hcolon : SeparatorFree ":" := by decide
  exact (((((h finding hmem).append hcolon).append hdimension).append hcolon).append hclass)

theorem DomainCoverage.separatorFree_digestText (row : DomainCoverage) :
    SeparatorFree row.digestText := by
  have hdomain := forall_asStr (P := SeparatorFree) (by decide) row.domain
  have hobjective := forall_asStr (P := SeparatorFree) (by decide) row.objective
  have hprotection := forall_asStr (P := SeparatorFree) (by decide) row.protection
  have hequals : SeparatorFree "=" := by decide
  have hslash : SeparatorFree "/" := by decide
  exact (((((hdomain.append hequals).append hobjective).append hslash).append
    hprotection).append hslash).append (separatorFree_flagText _)

theorem Strategy.separatorFree_digestText (strategy : Strategy) :
    SeparatorFree strategy.digestText := by
  cases strategy with
  | sequential => exact (by decide : SeparatorFree "sequential")
  | batch size => exact (by decide : SeparatorFree "batch:").append (separatorFree_toString size)
  | canary first rest =>
    exact (((by decide : SeparatorFree "canary:").append (separatorFree_toString first)).append
      (by decide : SeparatorFree ":")).append (separatorFree_toString rest)
  | parallel width =>
    exact (by decide : SeparatorFree "parallel:").append (separatorFree_toString width)

end Free

/-! ### The sections are read back -/

section Sections

variable {render : Renderings} {plan plan' : ChangePlan}

/-- The parts of a plan without separators. -/
structure FreeParts (render : Renderings) (plan : ChangePlan) : Prop where
  intent : SeparatorFree plan.intent.text
  targets : ∀ unit ∈ plan.targets.flatMap (·.units), SeparatorFree unit
  actions : ∀ unit ∈ plan.actions.flatMap (·.units render), SeparatorFree unit
  providers : ∀ unit ∈ plan.providers.map (·.digestText), SeparatorFree unit
  verification : ∀ unit ∈ plan.verification.contracts.flatMap (·.units), SeparatorFree unit
  risk : ∀ unit ∈ plan.risk.units, SeparatorFree unit

theorem ChangePlan.SeparatorFree.freeParts (h : plan.SeparatorFree render) :
    FreeParts render plan := by
  simp only [ChangePlan.SeparatorFree, ChangePlan.texts, forall_mem_append,
    forall_mem_cons, forall_mem_flatMap, forall_mem_map] at h
  obtain ⟨⟨⟨⟨⟨⟨hintent, -⟩, htargets⟩, hactions⟩, hproviders⟩, hcontracts⟩, hfindings⟩ := h
  simp only [← forall_mem_flatMap] at htargets
  refine ⟨hintent, htargets, ?_, ?_, ?_, RiskAssessment.separatorFree_units hfindings⟩
  · rw [forall_mem_flatMap]
    exact fun action hmem => PlanAction.separatorFree_units (hactions action hmem)
  · rw [forall_mem_map]
    intro binding hmem
    obtain ⟨hid, hversion, -⟩ := hproviders binding hmem
    exact (hid.append (by decide : OnoSendai.SeparatorFree "@")).append hversion
  · rw [forall_mem_flatMap]
    intro contract hmem
    obtain ⟨hsubject, hexpression, -⟩ := hcontracts contract hmem
    exact VerificationContract.separatorFree_units hsubject hexpression

theorem sectionSeparator_notMem_unitTerminated {units : List String}
    (h : ∀ unit ∈ units, SeparatorFree unit) :
    sectionSeparator ∉ (unitTerminated units).toList := by
  rw [toList_unitTerminated, terminated]
  intro hmem
  obtain ⟨part, hpart, hmem⟩ := mem_flatMap.1 hmem
  obtain ⟨unit, hunit, rfl⟩ := mem_map.1 hpart
  rcases mem_append.1 hmem with hmem | hmem
  · exact (h unit hunit).2 hmem
  · exact absurd (mem_singleton.1 hmem) (by decide)

/-- No section of a plan without separators holds a section separator. -/
theorem sectionSeparator_notMem_body (h : plan.SeparatorFree render) :
    ∀ entry ∈ plan.digestSections render,
      sectionSeparator ∉ (entry.1.push unitSeparator ++ entry.2).toList := by
  have hparts := h.freeParts
  have hname : ∀ {name body : String}, sectionSeparator ∉ (name.push unitSeparator).toList →
      sectionSeparator ∉ body.toList →
      sectionSeparator ∉ (name.push unitSeparator ++ body).toList := by
    intro name body hname hbody
    rw [toList_append, mem_append, not_or]
    exact ⟨hname, hbody⟩
  simp only [ChangePlan.digestSections, forall_mem_cons, not_mem_nil, false_imp_iff,
    implies_true, and_true, ProtectionSummary.digestText, VerificationSet.digestText,
    unitTerminated_map FrozenTarget.push_digestText,
    unitTerminated_map (PlanAction.push_digestText render),
    unitTerminated_map VerificationContract.push_digestText]
  refine ⟨hname (by decide) (separatorFree_toString _).2, hname (by decide) ?_,
    hname (by decide) hparts.intent.2,
    hname (by decide) (sectionSeparator_notMem_unitTerminated hparts.targets),
    hname (by decide) (sectionSeparator_notMem_unitTerminated hparts.actions),
    hname (by decide) (sectionSeparator_notMem_unitTerminated hparts.providers),
    hname (by decide) ?_, hname (by decide) (sectionSeparator_notMem_unitTerminated ?_),
    hname (by decide) (Strategy.separatorFree_digestText _).2,
    hname (by decide) (sectionSeparator_notMem_unitTerminated hparts.verification),
    hname (by decide) (sectionSeparator_notMem_unitTerminated hparts.risk)⟩
  · exact (forall_asStr (P := SeparatorFree) (by decide) plan.kind).2
  · exact (forall_asStr (P := SeparatorFree) (by decide) plan.protectionMode).2
  · rw [forall_mem_map]
    exact fun row _ => row.separatorFree_digestText

/-- **The sections are read back** from the text of a plan without separators. -/
theorem sections_of_canonicalText (h : plan.SeparatorFree render)
    (h' : plan'.SeparatorFree render)
    (heq : plan.canonicalText render = plan'.canonicalText render) :
    plan.digestSections render = plan'.digestSections render := by
  have hchars : ∀ plan : ChangePlan, (plan.canonicalText render).toList =
      terminated sectionSeparator ((plan.digestSections render).map fun entry =>
        (entry.1.push unitSeparator ++ entry.2).toList) := by
    intro plan
    simp [ChangePlan.canonicalText, ChangePlan.sectionText, String.toList_join, terminated,
      flatMap_map]
  have hterminated := congrArg toList heq
  rw [hchars, hchars, terminated_inj] at hterminated
  · have hnames : (plan.digestSections render).map Prod.fst =
        (plan'.digestSections render).map Prod.fst := rfl
    have hsame := map_eq_of_map_eq (k := id) (fun entry entry' hbody hname => ?_) hterminated
      hnames
    · simpa using hsame
    · rw [hname] at hbody
      have hsecond : entry.2 = entry'.2 := by
        rw [toList_append, toList_append] at hbody
        exact toList_inj.1 (append_cancel_left hbody)
      exact Prod.ext hname hsecond
  · rw [forall_mem_map]
    exact sectionSeparator_notMem_body h
  · rw [forall_mem_map]
    exact sectionSeparator_notMem_body h'

end Sections

/-! ### The terms of a plan and what the text leaves open -/

/-- What a text leaves open about a value: nothing for the kinds whose text names the value, and
the whole value for the kinds that are only rendered. -/
def Value.leftOpen : Value → Option Value
  | .null | .bool _ | .int _ | .string _ | .port _ => none
  | value => some value

/-- What a text leaves open about typed arguments: where the name of each ends, and its value. -/
def argumentsLeftOpen (arguments : List (String × Value)) : List (Nat × Option Value) :=
  arguments.map fun argument => (argument.1.toList.length, argument.2.leftOpen)

/-- What a text leaves open about an execution: its variant, and how many units it has. -/
inductive Execution.LeftOpen
  | providerAction (arguments : List (Nat × Option Value))
  | program (argv : Nat)
  | recoveryOperation (arguments : List (Nat × Option Value))
  | opaqueAction (namesProgram : Bool) (argv : Nat)

/-- What the text of an execution leaves open. -/
def Execution.leftOpen : Execution → Execution.LeftOpen
  | .providerAction _ _ arguments => .providerAction (argumentsLeftOpen arguments)
  | .program _ argv => .program argv.length
  | .recoveryOperation _ _ arguments => .recoveryOperation (argumentsLeftOpen arguments)
  | .opaqueAction _ path argv => .opaqueAction path.isSome argv.length

/-- What the text of a precondition leaves open. -/
def Precondition.leftOpen (precondition : Precondition) : Option Value × String :=
  (precondition.expected.leftOpen, precondition.detail)

/-- The terms of an action: what it does, to what, after what and on which conditions. -/
structure PlanAction.Terms where
  role : ActionRole
  target : Option String
  execution : Execution
  idempotency : Idempotency
  requiresPrivilege : Bool
  dependsOn : List ActionId
  preconditions : List Precondition

/-- The terms of an action. -/
def PlanAction.terms (action : PlanAction) : PlanAction.Terms where
  role := action.role
  target := action.target
  execution := action.execution
  idempotency := action.idempotency
  requiresPrivilege := action.requiresPrivilege
  dependsOn := action.dependsOn
  preconditions := action.preconditions

/-- What a text leaves open about an action. -/
structure PlanAction.LeftOpen where
  namesTarget : Bool
  execution : Execution.LeftOpen
  preconditions : List (Option Value × String)

/-- What the text of an action leaves open about its terms. -/
def PlanAction.Terms.leftOpen (terms : PlanAction.Terms) : PlanAction.LeftOpen where
  namesTarget := terms.target.isSome
  execution := terms.execution.leftOpen
  preconditions := terms.preconditions.map (·.leftOpen)

/-- The terms of a contract. -/
structure VerificationContract.Terms where
  class' : VerificationClass
  subject : String
  expression : String
  expected : Option Value
  timeout : Nat
  timeoutStatus : VerificationStatus

/-- The terms of a contract. -/
def VerificationContract.terms (contract : VerificationContract) :
    VerificationContract.Terms where
  class' := contract.class'
  subject := contract.subject
  expression := contract.expression
  expected := contract.expected
  timeout := contract.timeout
  timeoutStatus := contract.timeoutStatus

/-- What a text leaves open about a contract: the value it expects, the part of its timeout below
a millisecond, and what a timeout means. -/
def VerificationContract.Terms.leftOpen (terms : VerificationContract.Terms) :
    Option Value × Nat × VerificationStatus :=
  (terms.expected, terms.timeout % 1000000, terms.timeoutStatus)

/-- What a text leaves open about a row of the coverage matrix. -/
structure DomainCoverage.LeftOpen where
  assets : List RecoveryAssetId
  consistency : Option ConsistencyClass
  transactionScope : Option String
  exclusions : List CoverageExclusion
  notProtectedBy : List String
  note : String

/-- What the text of a row leaves open. -/
def DomainCoverage.leftOpen (row : DomainCoverage) : DomainCoverage.LeftOpen where
  assets := row.assets
  consistency := row.consistency
  transactionScope := row.transactionScope
  exclusions := row.exclusions
  notProtectedBy := row.notProtectedBy
  note := row.note

/-- The terms of a plan: what an operator approves when the plan is sealed. -/
structure ChangePlan.Terms where
  revision : Nat
  kind : PlanKind
  intent : String
  targets : List String
  actions : List PlanAction.Terms
  providers : List ProviderBinding
  protectionMode : ProtectionMode
  protection : List DomainCoverage
  level : ProtectionLevel
  strategy : Strategy
  verification : List VerificationContract.Terms
  acceptedRisk : Bool
  acceptedIrreversible : Bool

/-- The terms of a plan. -/
def ChangePlan.terms (plan : ChangePlan) : ChangePlan.Terms where
  revision := plan.revision
  kind := plan.kind
  intent := plan.intent.text
  targets := plan.targets.map (·.identity)
  actions := plan.actions.map (·.terms)
  providers := plan.providers
  protectionMode := plan.protectionMode
  protection := plan.protection.rows
  level := plan.protection.level
  strategy := plan.strategy
  verification := plan.verification.contracts.map (·.terms)
  acceptedRisk := plan.risk.acceptedRisk
  acceptedIrreversible := plan.risk.acceptedIrreversible

/-- What a text leaves open about a plan. -/
structure ChangePlan.LeftOpen where
  actions : List PlanAction.LeftOpen
  providers : List Nat
  protection : List DomainCoverage.LeftOpen
  verification : List (Option Value × Nat × VerificationStatus)

/-- What the text of a plan leaves open about its terms. Of a provider binding it is where the
identifier ends. -/
def ChangePlan.Terms.leftOpen (terms : ChangePlan.Terms) : ChangePlan.LeftOpen where
  actions := terms.actions.map (·.leftOpen)
  providers := terms.providers.map (·.id.toList.length)
  protection := terms.protection.map (·.leftOpen)
  verification := terms.verification.map (·.leftOpen)

/-! ### Values, executions and conditions are read back -/

section ReadBack

variable {render : Renderings}

theorem Value.eq_of_leftOpen_eq_some {value value' : Value} (h : value.leftOpen = some value') :
    value = value' := by
  cases value <;> simp_all [Value.leftOpen]

/-- A value is read back from its text and what the text leaves open. -/
theorem valueText_inj {value value' : Value} (hopen : value.leftOpen = value'.leftOpen)
    (h : valueText render value = valueText render value') : value = value' := by
  cases hsome : value'.leftOpen with
  | some other =>
    rw [Value.eq_of_leftOpen_eq_some hsome, Value.eq_of_leftOpen_eq_some (hopen.trans hsome)]
  | none =>
    rw [hsome] at hopen
    have hchars := congrArg toList h
    cases value <;> simp [Value.leftOpen] at hopen <;>
      cases value' <;> simp [Value.leftOpen] at hsome <;>
      simp [valueText] at hchars ⊢
    case bool.bool flag flag' =>
      cases flag <;> cases flag' <;> simp_all
    case int.int number number' =>
      exact Int.repr_injective (toList_inj.1 hchars)
    case string.string text text' =>
      exact toList_inj.1 hchars
    case port.port number number' =>
      exact UInt16.toNat_inj.1 (repr_injective (congrArg ofList hchars))

theorem append_inj_of_length {first first' second second' : String}
    (hlength : first.toList.length = first'.toList.length)
    (h : first ++ second = first' ++ second') : first = first' ∧ second = second' := by
  have hchars := congrArg toList h
  rw [toList_append, toList_append] at hchars
  obtain ⟨hfirst, hsecond⟩ := append_inj hchars hlength
  exact ⟨toList_inj.1 hfirst, toList_inj.1 hsecond⟩

theorem append_cancel_left {first second second' : String} (h : first ++ second = first ++ second') :
    second = second' :=
  (append_inj_of_length rfl h).2

theorem argumentText_inj {argument argument' : String × Value}
    (htext : Execution.argumentText render argument = Execution.argumentText render argument')
    (hopen : (argument.1.toList.length, argument.2.leftOpen) =
      (argument'.1.toList.length, argument'.2.leftOpen)) : argument = argument' := by
  rw [Prod.mk.injEq] at hopen
  simp only [Execution.argumentText, String.append_assoc] at htext
  obtain ⟨hname, htext⟩ := append_inj_of_length hopen.1 htext
  exact Prod.ext hname (valueText_inj hopen.2 (append_cancel_left htext))

theorem arguments_inj {arguments arguments' : List (String × Value)}
    (htext : arguments.map (Execution.argumentText render) =
      arguments'.map (Execution.argumentText render))
    (hopen : argumentsLeftOpen arguments = argumentsLeftOpen arguments') :
    arguments = arguments' := by
  simpa using map_eq_of_map_eq (k := id) (fun _ _ => argumentText_inj) htext hopen

variable {execution execution' : Execution}

/-- What a text leaves open about an execution fixes the number of its units. -/
theorem Execution.length_units (hopen : execution.leftOpen = execution'.leftOpen) :
    (execution.units render).length = (execution'.units render).length := by
  have hargv : ∀ {argv argv' : List String}, argv.length = argv'.length →
      (argvUnits argv).length = (argvUnits argv').length := by
    intro argv argv' hlength
    cases argv <;> cases argv' <;> simp_all [argvUnits]
  have harguments : ∀ {arguments arguments' : List (String × Value)},
      argumentsLeftOpen arguments = argumentsLeftOpen arguments' →
        arguments.length = arguments'.length := by
    intro arguments arguments' h
    simpa [argumentsLeftOpen] using congrArg length h
  cases execution <;> cases execution' <;> simp [leftOpen] at hopen <;> simp [units]
  · exact harguments hopen
  · exact hargv hopen
  · exact harguments hopen
  · exact hargv hopen.2

theorem getD_inj {text text' : Option String} (hsome : text.isSome = text'.isSome)
    (h : text.getD "" = text'.getD "") : text = text' := by
  cases text <;> cases text' <;> simp_all

theorem Execution.units_inj (hopen : execution.leftOpen = execution'.leftOpen)
    (h : execution.units render = execution'.units render) : execution = execution' := by
  cases execution <;> cases execution' <;> simp [leftOpen] at hopen <;> simp [units] at h ⊢
  case providerAction.providerAction =>
    exact ⟨h.1, h.2.1, arguments_inj h.2.2 hopen⟩
  case recoveryOperation.recoveryOperation =>
    exact ⟨h.1, h.2.1, arguments_inj h.2.2 hopen⟩
  case program.program =>
    exact ⟨h.1, argvUnits_inj hopen h.2⟩
  case opaqueAction.opaqueAction =>
    exact ⟨h.1, getD_inj hopen.1 h.2.1, argvUnits_inj hopen.2 h.2.2⟩

theorem flagText_inj {flag flag' : Bool} (h : flagText flag = flagText flag') : flag = flag' := by
  cases flag <;> cases flag' <;> simp_all [flagText]

theorem Precondition.units_inj {precondition precondition' : Precondition}
    (h : precondition.units render = precondition'.units render)
    (hopen : precondition.leftOpen = precondition'.leftOpen) : precondition = precondition' := by
  rcases precondition with ⟨kind, subject, field, expected, material, detail⟩
  rcases precondition' with ⟨kind', subject', field', expected', material', detail'⟩
  simp only [units, cons.injEq, Vocabulary.asStr_inj, and_true] at h
  rw [leftOpen, leftOpen, Prod.mk.injEq] at hopen
  obtain ⟨hkind, hsubject, hfield, hexpected, hmaterial⟩ := h
  rw [Precondition.mk.injEq]
  exact ⟨hkind, hsubject, hfield, valueText_inj hopen.1 hexpected, flagText_inj hmaterial,
    hopen.2⟩

/-! ### Actions are read back -/

/-- A word that can only be the second unit of an effect or of an action. -/
def SecondWord (word : String) : Prop :=
  (∃ domain : EffectDomain, word = asStr domain) ∨
    ∃ role : ActionRole, word = asStr role

theorem asStr_role_ne_asStr_domain (role : ActionRole) (domain : EffectDomain) :
    asStr role ≠ asStr domain := by
  cases role <;> cases domain <;> decide

theorem not_isHex_of_secondWord {word : String} (h : SecondWord word) : isHex word = false := by
  rcases h with ⟨domain, rfl⟩ | ⟨role, rfl⟩
  · cases domain <;> decide
  · cases role <;> decide

theorem not_isHex_asStr_kind (kind : PreconditionKind) : isHex (asStr kind) = false := by
  cases kind <;> decide

theorem not_secondWord_asStr_kind (kind : PreconditionKind) : ¬ SecondWord (asStr kind) := by
  rintro (⟨domain, h⟩ | ⟨role, h⟩)
  · cases kind <;> cases domain <;> revert h <;> decide
  · cases kind <;> cases role <;> revert h <;> decide

/-- What an effect or an action starts with: an identity and one of the second words. -/
def StartsItem (units : List String) : Prop :=
  units = [] ∨ ∃ (id word : String) (rest : List String),
    units = id :: word :: rest ∧ isHex id = true ∧ SecondWord word

theorem recognised_effects :
    Recognised 6 (fun block => ∃ effect : ProposedEffect, block = effect.units) (fun _ => True)
      fun units => ∃ (id : String) (domain : EffectDomain) (rest : List String),
        units = id :: asStr domain :: rest where
  length_eq := by
    rintro block ⟨effect, rfl⟩
    rfl
  follows _ _ := trivial
  marked := by
    rintro block rest ⟨effect, rfl⟩ -
    exact ⟨_, _, _, rfl⟩

theorem recognised_preconditions :
    Recognised 5 (fun block => ∃ precondition : Precondition, block = precondition.units render)
      (fun _ => True)
      fun units => ∃ (kind : PreconditionKind) (rest : List String),
        units = asStr kind :: rest where
  length_eq := by
    rintro block ⟨precondition, rfl⟩
    rfl
  follows _ _ := trivial
  marked := by
    rintro block rest ⟨precondition, rfl⟩ -
    exact ⟨_, _, rfl⟩

/-- What can follow a dependency does not start with a second word. -/
def FollowsDependency (units : List String) : Prop :=
  ∀ word rest, units = word :: rest → ¬ SecondWord word

/-- A dependency is an identity that no second word follows. -/
theorem recognised_dependencies :
    Recognised 1 (fun block => ∃ id : ActionId, block = [id.body]) FollowsDependency
      fun units => ∃ (id : String) (rest : List String),
        units = id :: rest ∧ isHex id = true ∧ FollowsDependency rest where
  length_eq := by
    rintro block ⟨id, rfl⟩
    rfl
  follows := by
    rintro block rest ⟨id, rfl⟩ -
    intro word rest' heq hword
    obtain ⟨rfl, -⟩ := cons.inj heq
    exact absurd id.isHex_body (by simp [not_isHex_of_secondWord hword])
  marked := by
    rintro block rest ⟨id, rfl⟩ hrest
    exact ⟨_, _, rfl, id.isHex_body, hrest⟩

theorem startsItem_actions (render : Renderings) (actions : List PlanAction) :
    StartsItem (actions.flatMap (·.units render)) := by
  cases actions with
  | nil => exact .inl rfl
  | cons action actions =>
    exact .inr ⟨_, _, _, rfl, action.id.isHex_body, .inr ⟨action.role, rfl⟩⟩

theorem startsItem_effects (effects : List ProposedEffect) {rest : List String}
    (hrest : StartsItem rest) : StartsItem (effects.flatMap (·.units) ++ rest) := by
  cases effects with
  | nil => exact hrest
  | cons effect effects =>
    exact .inr ⟨_, _, _, rfl, effect.id.isHex_body, .inl ⟨effect.domain, rfl⟩⟩

variable {actions actions' : List PlanAction}

/-- Effects in front of the next actions are read back. -/
theorem effects_inj {effects effects' : List ProposedEffect}
    (h : effects.flatMap (·.units) ++ actions.flatMap (·.units render) =
      effects'.flatMap (·.units) ++ actions'.flatMap (·.units render)) :
    actions.flatMap (·.units render) = actions'.flatMap (·.units render) := by
  have hblock : ∀ effects : List ProposedEffect,
      ∀ block ∈ effects.map (·.units), ∃ effect : ProposedEffect, block = effect.units := by
    intro effects block hmem
    obtain ⟨effect, -, rfl⟩ := mem_map.1 hmem
    exact ⟨effect, rfl⟩
  have hunmarked : ∀ actions : List PlanAction,
      ¬ ∃ (id : String) (domain : EffectDomain) (rest : List String),
        actions.flatMap (·.units render) = id :: asStr domain :: rest := by
    rintro actions ⟨id, domain, rest, heq⟩
    cases actions with
    | nil => simp at heq
    | cons action actions =>
      exact asStr_role_ne_asStr_domain action.role domain
        (cons.inj (cons.inj heq).2).1
  exact (recognised_effects.flatten_append_inj (hblock effects) (hblock effects') trivial trivial
    (hunmarked actions) (hunmarked actions') (by simpa [flatMap] using h)).2

variable {preconditions preconditions' : List Precondition}

/-- Preconditions in front of an effect or an action are read back. -/
theorem preconditions_inj {rest rest' : List String} (hrest : StartsItem rest)
    (hrest' : StartsItem rest')
    (h : preconditions.flatMap (·.units render) ++ rest =
      preconditions'.flatMap (·.units render) ++ rest') :
    preconditions.map (·.units render) = preconditions'.map (·.units render) ∧ rest = rest' := by
  have hblock : ∀ preconditions : List Precondition,
      ∀ block ∈ preconditions.map (·.units render),
        ∃ precondition : Precondition, block = precondition.units render := by
    intro preconditions block hmem
    obtain ⟨precondition, -, rfl⟩ := mem_map.1 hmem
    exact ⟨precondition, rfl⟩
  have hunmarked : ∀ {rest : List String}, StartsItem rest →
      ¬ ∃ (kind : PreconditionKind) (tail : List String),
        rest = asStr kind :: tail := by
    rintro rest (rfl | ⟨id, word, tail, rfl, hid, -⟩) ⟨kind, tail', heq⟩
    · simp at heq
    · rw [(cons.inj heq).1, not_isHex_asStr_kind] at hid
      simp at hid
  exact recognised_preconditions.flatten_append_inj (hblock preconditions) (hblock preconditions')
    trivial trivial (hunmarked hrest) (hunmarked hrest') (by simpa [flatMap] using h)

/-- Dependencies in front of preconditions and what follows them are read back. -/
theorem dependencies_inj {dependsOn dependsOn' : List ActionId} {rest rest' : List String}
    (hrest : StartsItem rest) (hrest' : StartsItem rest')
    (h : dependsOn.map (·.body) ++ (preconditions.flatMap (·.units render) ++ rest) =
      dependsOn'.map (·.body) ++ (preconditions'.flatMap (·.units render) ++ rest')) :
    dependsOn = dependsOn' ∧ preconditions.flatMap (·.units render) ++ rest =
      preconditions'.flatMap (·.units render) ++ rest' := by
  have hblock : ∀ dependsOn : List ActionId, ∀ block ∈ dependsOn.map fun id => [id.body],
      ∃ id : ActionId, block = [id.body] := by
    intro dependsOn block hmem
    obtain ⟨id, -, rfl⟩ := mem_map.1 hmem
    exact ⟨id, rfl⟩
  have hflatten : ∀ dependsOn : List ActionId,
      (dependsOn.map fun id => [id.body]).flatten = dependsOn.map (·.body) := by
    intro dependsOn
    induction dependsOn with
    | nil => rfl
    | cons id dependsOn ih => simp [ih]
  have hfollows : ∀ (preconditions : List Precondition) {rest : List String}, StartsItem rest →
      FollowsDependency (preconditions.flatMap (·.units render) ++ rest) := by
    intro preconditions rest hrest word tail heq hword
    cases preconditions with
    | cons precondition preconditions =>
      rw [← (cons.inj heq).1] at hword
      exact not_secondWord_asStr_kind precondition.kind hword
    | nil =>
      rcases hrest with rfl | ⟨id, second, rest, rfl, hid, -⟩
      · simp at heq
      · rw [(cons.inj heq).1, not_isHex_of_secondWord hword] at hid
        simp at hid
  have hunmarked : ∀ (preconditions : List Precondition) {rest : List String}, StartsItem rest →
      ¬ ∃ (id : String) (tail : List String),
        preconditions.flatMap (·.units render) ++ rest = id :: tail ∧ isHex id = true ∧
          FollowsDependency tail := by
    rintro preconditions rest hrest ⟨id, tail, heq, hid, htail⟩
    cases preconditions with
    | cons precondition preconditions =>
      rw [← (cons.inj heq).1, not_isHex_asStr_kind] at hid
      simp at hid
    | nil =>
      rcases hrest with rfl | ⟨id', second, rest, rfl, -, hsecond⟩
      · simp at heq
      · exact htail second rest (cons.inj heq).2.symm hsecond
  obtain ⟨hblocks, hrest⟩ := recognised_dependencies.flatten_append_inj (hblock dependsOn)
    (hblock dependsOn') (hfollows preconditions hrest) (hfollows preconditions' hrest')
    (hunmarked preconditions hrest) (hunmarked preconditions' hrest')
    (by rw [hflatten, hflatten]; exact h)
  refine ⟨map_injective_iff.2 (fun id id' hid => ?_) hblocks, hrest⟩
  exact HexId.ext (cons.inj hid).1

/-- One action in front of others is read back from its units and what they leave open. -/
theorem action_inj {action action' : PlanAction}
    (hopen : action.terms.leftOpen = action'.terms.leftOpen)
    (h : action.units render ++ actions.flatMap (·.units render) =
      action'.units render ++ actions'.flatMap (·.units render)) :
    action.terms = action'.terms ∧
      actions.flatMap (·.units render) = actions'.flatMap (·.units render) := by
  simp only [PlanAction.Terms.leftOpen, PlanAction.terms, PlanAction.LeftOpen.mk.injEq] at hopen
  obtain ⟨htargetOpen, hexecutionOpen, hpreconditionsOpen⟩ := hopen
  rw [PlanAction.units, PlanAction.units] at h
  simp only [append_assoc, cons_append, nil_append, cons.injEq,
    asStr_inj] at h
  obtain ⟨-, hrole, htarget, h⟩ := h
  obtain ⟨hexecution, h⟩ := append_inj h (Execution.length_units hexecutionOpen)
  simp only [cons.injEq, asStr_inj] at h
  obtain ⟨hidempotency, hprivilege, h⟩ := h
  have hstarts := startsItem_effects action.effects (startsItem_actions render actions)
  have hstarts' :=
    startsItem_effects action'.effects (startsItem_actions render actions')
  obtain ⟨hdependsOn, h⟩ := dependencies_inj hstarts hstarts' h
  obtain ⟨hpreconditions, h⟩ := preconditions_inj hstarts hstarts' h
  have hconditions : action.preconditions = action'.preconditions := by
    simpa using map_eq_of_map_eq (k := id) (fun _ _ => Precondition.units_inj) hpreconditions
      hpreconditionsOpen
  refine ⟨?_, effects_inj h⟩
  simp only [PlanAction.terms, PlanAction.Terms.mk.injEq]
  exact ⟨hrole, getD_inj htargetOpen htarget, Execution.units_inj hexecutionOpen hexecution,
    hidempotency, flagText_inj hprivilege, hdependsOn, hconditions⟩

/-- **Actions are read back** from their units and what the units leave open. -/
theorem actions_of_units (hopen : actions.map (·.terms.leftOpen) = actions'.map (·.terms.leftOpen))
    (h : actions.flatMap (·.units render) = actions'.flatMap (·.units render)) :
    actions.map (·.terms) = actions'.map (·.terms) := by
  induction actions generalizing actions' with
  | nil =>
    cases actions' with
    | nil => rfl
    | cons action' actions' => simp at hopen
  | cons action actions ih =>
    cases actions' with
    | nil => simp at hopen
    | cons action' actions' =>
      simp only [map_cons, cons.injEq, flatMap_cons] at hopen h ⊢
      obtain ⟨hterms, hrest⟩ := action_inj hopen.1 h
      exact ⟨hterms, ih hopen.2 hrest⟩

/-! ### The other sections are read back -/

theorem asStr_append_inj {α : Type} [Vocabulary α] (separator : Char) {member member' : α}
    {rest rest' : String}
    (hfree : ∀ word ∈ (all : List α).map asStr, separator ∉ word.toList)
    (h : asStr member ++ (singleton separator ++ rest) =
      asStr member' ++ (singleton separator ++ rest')) : member = member' ∧ rest = rest' := by
  have hchars := congrArg toList h
  simp only [toList_append, toList_singleton, cons_append,
    nil_append] at hchars
  rw [append_cons_inj (forall_asStr (P := fun word => separator ∉ word.toList) hfree
      member)
    (forall_asStr (P := fun word => separator ∉ word.toList) hfree member')] at hchars
  exact ⟨asStr_injective (toList_inj.1 hchars.1), toList_inj.1 hchars.2⟩

/-- A row is read back from its text and what the text leaves open. -/
theorem DomainCoverage.digestText_inj {row row' : DomainCoverage}
    (h : row.digestText = row'.digestText) (hopen : row.leftOpen = row'.leftOpen) : row = row' := by
  rcases row with ⟨domain, objective, protection, assets, consistency, transactionScope,
    exclusions, notProtectedBy, note, policyIrrelevant⟩
  rcases row' with ⟨domain', objective', protection', assets', consistency', transactionScope',
    exclusions', notProtectedBy', note', policyIrrelevant'⟩
  simp only [leftOpen, DomainCoverage.LeftOpen.mk.injEq] at hopen
  simp only [digestText, String.append_assoc] at h
  obtain ⟨hdomain, h⟩ := asStr_append_inj '=' (by decide) h
  obtain ⟨hobjective, h⟩ := asStr_append_inj '/' (by decide) h
  obtain ⟨hprotection, h⟩ := asStr_append_inj '/' (by decide) h
  rw [DomainCoverage.mk.injEq]
  obtain ⟨hassets, hconsistency, hscope, hexclusions, hnot, hnote⟩ := hopen
  exact ⟨hdomain, hobjective, hprotection, hassets, hconsistency, hscope, hexclusions, hnot,
    hnote, flagText_inj h⟩

/-- A strategy is read back from its text. -/
theorem Strategy.digestText_inj {strategy strategy' : Strategy}
    (h : strategy.digestText = strategy'.digestText) : strategy = strategy' := by
  have hcolon : ∀ n : Nat, ':' ∉ (toString n).toList := by
    intro n hmem
    exact absurd (isDigit_of_mem_toString hmem) (by decide)
  have hchars := congrArg toList h
  cases strategy <;> cases strategy' <;> simp [digestText] at hchars ⊢
  case batch.batch =>
    exact repr_injective (congrArg ofList hchars)
  case canary.canary first rest first' rest' =>
    have hcanary : toString first ++ (":" ++ toString rest) =
        toString first' ++ (":" ++ toString rest') := by
      simp only [digestText, String.append_assoc] at h
      exact append_cancel_left h
    have hparts := congrArg String.toList hcanary
    simp only [String.toList_append] at hparts
    obtain ⟨hfirst, hrest⟩ := (append_cons_inj (hcolon first) (hcolon first')).1 hparts
    exact ⟨repr_injective (toList_inj.1 hfirst),
      repr_injective (toList_inj.1 hrest)⟩
  case parallel.parallel =>
    exact repr_injective (congrArg ofList hchars)

theorem VerificationContract.units_inj {contract contract' : VerificationContract}
    (h : contract.units = contract'.units)
    (hopen : contract.terms.leftOpen = contract'.terms.leftOpen) :
    contract.terms = contract'.terms := by
  simp only [units, cons.injEq, asStr_inj, and_true] at h
  obtain ⟨-, hclass, hsubject, hexpression, hmillis⟩ := h
  simp only [Terms.leftOpen, Prod.mk.injEq] at hopen
  obtain ⟨hexpected, hbelow, hstatus⟩ := hopen
  have htimeout : contract.timeout = contract'.timeout := by
    have hmillis := Nat.repr_injective hmillis
    have hbelow : contract.timeout % 1000000 = contract'.timeout % 1000000 := hbelow
    omega
  simp only [terms, Terms.mk.injEq]
  exact ⟨hclass, hsubject, hexpression, hexpected, htimeout, hstatus⟩

theorem ProviderBinding.digestText_inj {binding binding' : ProviderBinding}
    (h : binding.digestText = binding'.digestText)
    (hopen : binding.id.toList.length = binding'.id.toList.length) : binding = binding' := by
  simp only [digestText, String.append_assoc] at h
  obtain ⟨hid, h⟩ := append_inj_of_length hopen h
  rcases binding with ⟨id, version⟩
  rcases binding' with ⟨id', version'⟩
  rw [ProviderBinding.mk.injEq]
  exact ⟨hid, append_cancel_left h⟩

end ReadBack

/-! ### Two plans with one text -/

theorem ProtectionSummary.level_of_rows {summary summary' : ProtectionSummary}
    (h : summary.rows = summary'.rows) : summary.level = summary'.level := by
  have hrequired : summary.requiredRows = summary'.requiredRows := by
    rw [requiredRows, requiredRows, h]
  rw [level, level, hrequired]

/-- Two plans with one text that agree on what the text leaves open have the same terms. -/
theorem terms_of_canonicalText {render : Renderings} {plan plan' : ChangePlan}
    (h : plan.SeparatorFree render) (h' : plan'.SeparatorFree render)
    (heq : plan.canonicalText render = plan'.canonicalText render)
    (hopen : plan.terms.leftOpen = plan'.terms.leftOpen) : plan.terms = plan'.terms := by
  have hsections := sections_of_canonicalText h h' heq
  have hparts := h.freeParts
  have hparts' := h'.freeParts
  simp only [ChangePlan.digestSections, cons.injEq, Prod.mk.injEq, true_and, and_true,
    Vocabulary.asStr_inj, ProtectionSummary.digestText, VerificationSet.digestText,
    unitTerminated_map FrozenTarget.push_digestText,
    unitTerminated_map (PlanAction.push_digestText render),
    unitTerminated_map VerificationContract.push_digestText] at hsections
  obtain ⟨hrevision, hkind, hintent, htargetText, hactionText, hproviderText, hmode, hrowText,
    hstrategy, hcontractText, hriskText⟩ := hsections
  simp only [ChangePlan.Terms.leftOpen, ChangePlan.terms, ChangePlan.LeftOpen.mk.injEq,
    map_map] at hopen
  obtain ⟨hactionsOpen, hprovidersOpen, hprotectionOpen, hverificationOpen⟩ := hopen
  have htargets := flatMap_inj_of_length FrozenTarget.length_units
    (unitTerminated_inj hparts.targets hparts'.targets htargetText)
  have hactions := actions_of_units hactionsOpen
    (unitTerminated_inj hparts.actions hparts'.actions hactionText)
  have hproviders : plan.providers = plan'.providers := by
    simpa using map_eq_of_map_eq (k := id) (fun _ _ => ProviderBinding.digestText_inj)
      (unitTerminated_inj hparts.providers hparts'.providers hproviderText) hprovidersOpen
  have hrows : plan.protection.rows = plan'.protection.rows := by
    have hfree : ∀ plan : ChangePlan, ∀ unit ∈ plan.protection.rows.map (·.digestText),
        SeparatorFree unit := by
      intro plan
      rw [forall_mem_map]
      exact fun row _ => row.separatorFree_digestText
    simpa using map_eq_of_map_eq (k := id) (fun _ _ => DomainCoverage.digestText_inj)
      (unitTerminated_inj (hfree plan) (hfree plan') hrowText) hprotectionOpen
  have hcontracts := map_eq_of_map_eq (fun _ _ => VerificationContract.units_inj)
    (flatMap_inj_of_length VerificationContract.length_units
      (unitTerminated_inj hparts.verification hparts'.verification hcontractText))
    hverificationOpen
  have hrisk := unitTerminated_inj hparts.risk hparts'.risk hriskText
  simp only [RiskAssessment.units, cons_append, cons.injEq] at hrisk
  simp only [ChangePlan.terms, ChangePlan.Terms.mk.injEq]
  refine ⟨repr_injective hrevision, hkind, hintent, ?_, hactions, hproviders, hmode, hrows, ?_,
    Strategy.digestText_inj hstrategy, hcontracts, flagText_inj hrisk.2.1,
    flagText_inj hrisk.2.2.1⟩
  · exact map_eq_of_map_eq (fun _ _ hunits _ => (cons.inj (cons.inj hunits).2).1)
      htargets htargets
  · exact ProtectionSummary.level_of_rows hrows

/-- **What a seal covers.** Two plans without separators whose digests are taken over one text have
the same terms exactly when they agree on what the text leaves open. -/
theorem terms_eq_iff_leftOpen_eq (render : Renderings) (plan plan' : ChangePlan)
    (h : plan.SeparatorFree render) (h' : plan'.SeparatorFree render)
    (heq : plan.canonicalText render = plan'.canonicalText render) :
    plan.terms = plan'.terms ↔ plan.terms.leftOpen = plan'.terms.leftOpen :=
  ⟨fun hterms => by rw [hterms], terms_of_canonicalText h h' heq⟩

/-! ### A text that leaves terms open -/

section LeftOpen

variable (sha256 : Sha256) (render : Renderings)

/-- A sealed restart of a service, carried out in a given way and expecting a given value. -/
def restartBy (execution : Execution) (expected : Option Value) : ChangePlan :=
  let draft := ChangePlan.draft sha256 render
    { text := "restart service nginx", source := "plan { restart service nginx }" } "session-1" 0
  let action := PlanAction.new sha256 draft.id 1 .mutate "restart service nginx" execution
  let contract := VerificationContract.new sha256 draft.id .required "nginx.service"
    "state == running"
  let contract := { contract with expected }
  let sealedPlan := { draft with
    actions := [action], verification := { contracts := [contract] }, sealedAt := some 1,
    state := .sealed }
  { sealedPlan with digest := some (sealedPlan.computeDigest sha256 render) }

theorem reached_restartBy (execution : Execution) (expected : Option Value) :
    Reached sha256 render KeepsSeal (restartBy sha256 render execution expected) := by
  let plan := restartBy sha256 render execution expected
  let drafted := { plan with sealedAt := none, state := .draft, digest := none }
  have haction : (ChangePlan.draft sha256 render plan.intent plan.session 0).perform sha256 render
      (.withAction (plan.actions.head (by simp [plan, restartBy]))) =
        .ok { drafted with verification := .empty } := rfl
  have hcontract : { drafted with verification := .empty }.perform sha256 render
      (.withVerification plan.verification) = .ok drafted := rfl
  have hseal : drafted.perform sha256 render (.sealAt 1) = .ok plan := rfl
  refine Reached.step (Reached.step (Reached.step (.draft _ _ _) ?_ haction) ?_ hcontract) ?_ hseal
  · trivial
  · exact fun hsealed => nomatch hsealed
  · trivial

/-- A provider's own restart. -/
def restartByProvider : Execution :=
  .providerAction "ono.provider.systemd" "ono.service.restart" []

/-- A recovery operation of the same provider under the same name. -/
def restartByRecovery : Execution :=
  .recoveryOperation "ono.provider.systemd" "ono.service.restart" []

theorem separatorFree_restartByProvider (expected : Option Value) :
    (restartBy sha256 render restartByProvider expected).SeparatorFree render := by
  have htexts : (restartBy sha256 render restartByProvider expected).texts render =
      ["restart service nginx", "", "ono.provider.systemd", "ono.service.restart",
        "nginx.service", "state == running"] := rfl
  rw [ChangePlan.SeparatorFree, htexts]
  decide

theorem separatorFree_restartByRecovery (expected : Option Value) :
    (restartBy sha256 render restartByRecovery expected).SeparatorFree render :=
  separatorFree_restartByProvider sha256 render expected

end LeftOpen

theorem terms_eq_iff_leftOpen_eq_restart :
    (∀ sha256 render, (restartBy sha256 render restartByProvider none).canonicalText render =
        (restartBy sha256 render restartByRecovery (some (.int 1))).canonicalText render) ∧
      ∀ sha256 render,
        (restartBy sha256 render restartByProvider none).terms =
            (restartBy sha256 render restartByRecovery (some (.int 1))).terms ↔
          (restartBy sha256 render restartByProvider none).terms.leftOpen =
            (restartBy sha256 render restartByRecovery (some (.int 1))).terms.leftOpen :=
  ⟨fun _ _ => rfl, fun sha256 render =>
    terms_eq_iff_leftOpen_eq render _ _ (separatorFree_restartByProvider sha256 render none)
      (separatorFree_restartByRecovery sha256 render _) rfl⟩

/-- **The seal leaves terms open.** A provider action that expects nothing and a recovery operation
that expects a value are sealed under one text. -/
theorem seal_leaves_terms_open :
    ¬ ∀ (sha256 : Sha256) (render : Renderings) (plan plan' : ChangePlan),
      Reached sha256 render KeepsSeal plan → Reached sha256 render KeepsSeal plan' →
      plan.state.isSealed = true → plan'.state.isSealed = true →
      plan.SeparatorFree render → plan'.SeparatorFree render →
      plan.canonicalText render = plan'.canonicalText render → plan.terms = plan'.terms := by
  intro h
  let sha256 : Sha256 := fun _ => Vector.replicate 32 0
  let render : Renderings :=
    { float := fun _ => "", path := fun _ => "", ip := fun _ => "", timestamp := fun _ => "",
      debug := fun _ => "", duration := fun _ => "" }
  have hterms := h sha256 render (restartBy sha256 render restartByProvider none)
    (restartBy sha256 render restartByRecovery (some (.int 1)))
    (reached_restartBy sha256 render _ _) (reached_restartBy sha256 render _ _) rfl rfl
    (separatorFree_restartByProvider sha256 render _) (separatorFree_restartByRecovery sha256 render _)
    rfl
  have hexecution := congrArg (fun terms => terms.actions.map (·.execution)) hterms
  change [restartByProvider] = [restartByRecovery] at hexecution
  simp [restartByProvider, restartByRecovery] at hexecution

end OnoSendai
