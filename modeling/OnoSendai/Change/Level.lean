import Mathlib.Data.List.Chain
import OnoSendai.Change.Protection

/-!
# The word at the top of a coverage matrix

The plan-level word is computed from the required rows by a sequence of early returns. This module
proves that the two strongest words promise no more than the rows hold: nothing falls short, nothing
is unknown, and every persistent domain is covered by an image that a named asset or a named
transaction stands behind. It also proves what the word does not depend on: the order of the rows,
the rows that are not required, and what the rows say in prose.
-/

namespace OnoSendai

open List

/-! ### Rows -/

namespace DomainCoverage

theorem known_of_isSatisfied {row : DomainCoverage} (hrequired : row.isRequired)
    (hsatisfied : row.isSatisfied) : row.objective ≠ .unknown ∧ row.protection ≠ .unknown := by
  unfold isRequired at hrequired
  unfold isSatisfied at hsatisfied
  cases hobjective : row.objective <;> cases hprotection : row.protection <;>
    simp_all [RecoveryObjective.isRequired, RecoveryObjective.satisfiedBy,
      DomainProtection.isStateImage]

/-- The row with nothing said in prose about it. -/
def bare (row : DomainCoverage) : DomainCoverage :=
  { row with consistency := none, exclusions := [], notProtectedBy := [], note := "" }

/-- The other row differs in its notes, exclusions and consistency class alone. -/
def Retold (row other : DomainCoverage) : Prop :=
  ∃ consistency exclusions notProtectedBy note,
    other = { row with consistency := consistency, exclusions := exclusions,
                       notProtectedBy := notProtectedBy, note := note }

theorem Retold.bare_eq {row other : DomainCoverage} (h : row.Retold other) :
    other.bare = row.bare := by
  obtain ⟨consistency, exclusions, notProtectedBy, note, rfl⟩ := h
  rfl

end DomainCoverage

namespace ProtectionSummary

variable {summary other : ProtectionSummary}

/-! ### What the strongest words promise -/

theorem shortfall_eq_nil_iff :
    summary.shortfall = [] ↔ ∀ row ∈ summary.requiredRows, row.isSatisfied := by
  simp [shortfall, filter_eq_nil_iff]

theorem countP_isSatisfied_lt_iff :
    summary.requiredRows.countP (·.isSatisfied) < summary.requiredRows.length ↔
      ∃ row ∈ summary.requiredRows, ¬ row.isSatisfied := by
  have hle := countP_le_length (p := (·.isSatisfied)) (l := summary.requiredRows)
  rw [lt_iff_le_and_ne, and_iff_right hle, Ne, countP_eq_length]
  push Not
  rfl

/-- Neighbours are equal all along a list exactly when any two members are. -/
theorem allEqual_iff {scopes : List String} :
    allEqual scopes ↔ ∀ one ∈ scopes, ∀ two ∈ scopes, one = two := by
  induction scopes with
  | nil => simp [allEqual]
  | cons first rest ih =>
    cases rest with
    | nil => simp [allEqual]
    | cons second rest =>
      have hstep : allEqual (first :: second :: rest) ↔
          first = second ∧ allEqual (second :: rest) := by
        simp [allEqual]
      rw [hstep, ih]
      constructor
      · rintro ⟨rfl, hall⟩ one hone two htwo
        exact hall one (by simpa using hone) two (by simpa using htwo)
      · intro hall
        exact ⟨hall first (by simp) second (by simp), fun one hone two htwo =>
          hall one (mem_cons_of_mem _ hone) two (mem_cons_of_mem _ htwo)⟩

/-- What a matrix holds when nothing about its coverage is overstated: nothing required falls
short or is unknown, and every required persistent domain is covered by an image of its state that
an asset or a transaction stands behind. -/
structure Earned (summary : ProtectionSummary) : Prop where
  shortfall_eq_nil : summary.shortfall = []
  known : ∀ row ∈ summary.requiredRows,
    row.domain ≠ .unknown ∧ row.objective ≠ .unknown ∧ row.protection ≠ .unknown
  imaged : ∀ row ∈ summary.requiredRows, row.domain.isPersistent →
    row.protection.isStateImage ∧ (row.assets ≠ [] ∨ row.transactionScope ≠ none)

/-- All required rows are transactional, in one and the same scope. -/
def InOneTransaction (summary : ProtectionSummary) : Prop :=
  ∃ scope, ∀ row ∈ summary.requiredRows,
    row.protection = .transactional ∧ row.transactionScope = some scope

/-- The rows that carry a scope are all rows, and the scopes are one. -/
theorem exists_scope {rows : List DomainCoverage}
    (hlength : (rows.filterMap (·.transactionScope)).length = rows.length)
    (hequal : allEqual (rows.filterMap (·.transactionScope))) :
    ∃ scope, ∀ row ∈ rows, row.transactionScope = some scope := by
  have hsome : ∀ row ∈ rows, row.transactionScope.isSome :=
    filterMap_length_eq_length.1 hlength
  cases rows with
  | nil => exact ⟨"", fun row hrow => absurd hrow not_mem_nil⟩
  | cons first rest =>
    obtain ⟨scope, hscope⟩ := Option.isSome_iff_exists.1 (hsome first mem_cons_self)
    refine ⟨scope, fun row hrow => ?_⟩
    obtain ⟨found, hfound⟩ := Option.isSome_iff_exists.1 (hsome row hrow)
    have heq := allEqual_iff.1 hequal found (mem_filterMap.2 ⟨row, hrow, hfound⟩) scope
      (mem_filterMap.2 ⟨first, mem_cons_self, hscope⟩)
    rw [hfound, heq]

/-- The early returns of the level, for the words that are not among them: past them everything
required is satisfied and no domain is unknown. -/
theorem satisfied_of_level (h : summary.level = .protected' ∨ summary.level = .transactional) :
    (∀ row ∈ summary.requiredRows, row.isSatisfied ∧ row.domain ≠ .unknown) ∧
      summary.requiredRows ≠ [] := by
  simp only [level] at h
  split_ifs at h with hempty hnone hunknown hshort hdomain <;> try simp at h
  all_goals
    have hall : ∀ row ∈ summary.requiredRows, row.isSatisfied := by
      by_contra hmissing
      push Not at hmissing
      exact hshort (countP_isSatisfied_lt_iff.2 (by simpa using hmissing))
    refine ⟨fun row hrow => ⟨hall row hrow, fun heq => hdomain ?_⟩, by simpa using hempty⟩
    exact any_eq_true.2 ⟨row, hrow, by simpa using heq⟩

theorem inOneTransaction_of_level (h : summary.level = .transactional) :
    summary.InOneTransaction := by
  simp only [level] at h
  split_ifs at h with hempty hnone hunknown hshort hdomain htransaction
  simp only [Bool.and_eq_true, all_eq_true, decide_eq_true_eq] at htransaction
  obtain ⟨⟨hprotection, hlength⟩, hequal⟩ := htransaction
  obtain ⟨scope, hscope⟩ := exists_scope hlength hequal
  exact ⟨scope, fun row hrow => ⟨hprotection row hrow, hscope row hrow⟩⟩

theorem imaged_of_level (h : summary.level = .protected') :
    (∃ row ∈ summary.requiredRows, row.domain.isPersistent) ∧
      ∀ row ∈ summary.requiredRows, row.domain.isPersistent →
        row.protection.isStateImage ∧ (row.assets ≠ [] ∨ row.transactionScope ≠ none) := by
  simp only [level] at h
  split_ifs at h with hempty hnone hunknown hshort hdomain htransaction hpersistent himaged
  constructor
  · simpa [filter_eq_nil_iff] using hpersistent
  · intro row hrow hkept
    have himage := all_eq_true.1 himaged row (mem_filter.2 ⟨hrow, hkept⟩)
    simpa [Option.isSome_iff_ne_none] using himage

/-- **The two strongest words are earned.** -/
theorem earned_of_level (h : summary.level = .protected' ∨ summary.level = .transactional) :
    summary.Earned := by
  obtain ⟨hall, -⟩ := satisfied_of_level h
  refine ⟨shortfall_eq_nil_iff.2 fun row hrow => (hall row hrow).1, fun row hrow => ?_, ?_⟩
  · have hrequired : row.isRequired := (mem_filter.1 hrow).2
    obtain ⟨hobjective, hprotection⟩ :=
      DomainCoverage.known_of_isSatisfied hrequired (hall row hrow).1
    exact ⟨(hall row hrow).2, hobjective, hprotection⟩
  · rcases h with himaged | htransaction
    · exact (imaged_of_level himaged).2
    · obtain ⟨scope, hscope⟩ := inOneTransaction_of_level htransaction
      intro row hrow _
      obtain ⟨hprotection, hnamed⟩ := hscope row hrow
      rw [hprotection, hnamed]
      exact ⟨rfl, .inr nofun⟩

/-! ### What the word does not depend on -/

theorem level_of_requiredRows_eq (h : summary.requiredRows = other.requiredRows) :
    summary.level = other.level := by
  simp only [level, h]

theorem allEqual_perm {scopes scopes' : List String} (h : scopes.Perm scopes') :
    allEqual scopes = allEqual scopes' := by
  rw [Bool.eq_iff_iff, allEqual_iff, allEqual_iff]
  simp only [h.mem_iff]

/-- **The order of the rows does not matter.** -/
theorem level_of_perm (h : summary.rows.Perm other.rows) : summary.level = other.level := by
  have hrequired : summary.requiredRows.Perm other.requiredRows := h.filter _
  have hpersistent := hrequired.filter (·.domain.isPersistent)
  have hscopes := hrequired.filterMap (·.transactionScope)
  simp only [level, hrequired.isEmpty_eq, hrequired.countP_eq, hrequired.all_eq,
    hrequired.any_eq, hrequired.length_eq, hscopes.length_eq, allEqual_perm hscopes,
    hpersistent.isEmpty_eq, hpersistent.all_eq]

/-- The matrix with nothing said in prose about its rows. -/
def bare (summary : ProtectionSummary) : ProtectionSummary :=
  .of (summary.rows.map (·.bare))

theorem requiredRows_bare : summary.bare.requiredRows = summary.requiredRows.map (·.bare) := by
  rw [requiredRows, requiredRows, bare, of, filter_map]
  rfl

theorem level_bare : summary.bare.level = summary.level := by
  simp only [level, requiredRows_bare, isEmpty_map, countP_map, all_map,
    any_map, length_map, filterMap_map, filter_map]
  rfl

/-- **What the rows say in prose does not matter.** -/
theorem level_of_retold (h : Forall₂ DomainCoverage.Retold summary.rows other.rows) :
    summary.level = other.level := by
  have hrows : summary.rows.map (·.bare) = other.rows.map (·.bare) := by
    generalize summary.rows = rows at h
    generalize other.rows = rows' at h
    induction h with
    | nil => rfl
    | cons hretold _ ih => rw [map_cons, map_cons, hretold.bare_eq, ih]
  rw [← level_bare, ← @level_bare other, bare, bare, hrows]

/-- **The protection word never overstates.** The two strongest words are earned, a protected plan
has a persistent domain and a transactional one is in one transaction; and the word does not change
with the order of the rows, with rows that are not required, or with notes, exclusions and
consistency classes. -/
theorem level_never_overstates (summary : ProtectionSummary) :
    (summary.level = .protected' →
        summary.Earned ∧ ∃ row ∈ summary.requiredRows, row.domain.isPersistent) ∧
      (summary.level = .transactional → summary.Earned ∧ summary.InOneTransaction) ∧
      (∀ other : ProtectionSummary, summary.rows.Perm other.rows → other.level = summary.level) ∧
      (∀ before after row exclusions, summary.rows = before ++ after → row.isRequired = false →
        (ProtectionSummary.mk (before ++ row :: after) exclusions).level = summary.level) ∧
      (∀ other : ProtectionSummary,
        Forall₂ DomainCoverage.Retold summary.rows other.rows → other.level = summary.level) := by
  refine ⟨fun h => ⟨earned_of_level (.inl h), (imaged_of_level h).1⟩,
    fun h => ⟨earned_of_level (.inr h), inOneTransaction_of_level h⟩,
    fun other h => (level_of_perm h).symm, ?_, fun other h => (level_of_retold h).symm⟩
  intro before after row exclusions hrows hrequired
  apply level_of_requiredRows_eq
  simp [requiredRows, hrows, hrequired]

end ProtectionSummary

end OnoSendai
