import OnoSendai.Protection.Promise

/-!
# The steps of the coverage analysis

The analysis asks the providers again and again: once for every mutation that needs recovery, and
once for every filesystem beneath it that no action planned for the tree captures. Each of these is
a step, which starts from what the ones before have gathered. A row of the matrix rests on a step of
its own, on actions planned for the tree above, or on nothing.
-/

namespace OnoSendai.Protection

open List

/-! ### Steps -/

/-- One time the providers are asked: for a mutation over a domain with filesystems beneath it, when
some things have been gathered. -/
structure CoverStep where
  mutation : MutationDomain
  persistence : Option PersistenceDomain
  boundaries : List MountBoundary
  before : Gathered
deriving DecidableEq

section Steps

variable (request : CoverageRequest)

namespace CoverStep

/-- What the step finds. -/
def found (step : CoverStep) : Cover × Gathered :=
  cover request step.mutation step.persistence step.boundaries step.before

/-- The actions the step plans. -/
def actions (step : CoverStep) : List ProtectionAction :=
  (step.found request).1.actions

/-- What has been gathered after the step. -/
def after (step : CoverStep) : Gathered :=
  (step.found request).2.planning (step.actions request)

/-- The offers made in the step. -/
def offers (step : CoverStep) : List RecoveryCandidate :=
  (discover request step.mutation step.persistence step.before).1.candidates

/-- The offers of the step that fit and satisfy the objective, in the order they are tried. -/
def usable (step : CoverStep) : List RecoveryCandidate :=
  (offersTried request step.mutation step.persistence step.boundaries step.before).filter
    (satisfies · step.mutation.objective)

/-- The offers the step takes. -/
def chosen (step : CoverStep) : List RecoveryCandidate :=
  (chosenOffers request.policy.mode (step.usable request) step.before).1

end CoverStep

/-- The steps of a list, each from what the one before has gathered. -/
inductive Run : Gathered → List CoverStep → Gathered → Prop
  | nil (gathered : Gathered) : Run gathered [] gathered
  | cons {step : CoverStep} {steps : List CoverStep} {final : Gathered}
      (h : Run (step.after request) steps final) : Run step.before (step :: steps) final

variable {request}

theorem Run.append {start middle final : Gathered} {steps steps' : List CoverStep}
    (h : Run request start steps middle) (h' : Run request middle steps' final) :
    Run request start (steps ++ steps') final := by
  induction h with
  | nil => exact h'
  | cons _ ih => exact .cons (ih h')

/-- **What every step keeps holds in the end.** -/
theorem Run.kept {kept : Gathered → Prop} {start final : Gathered} {steps : List CoverStep}
    (h : Run request start steps final)
    (hstep : ∀ step ∈ steps, kept step.before → kept (step.after request)) (hstart : kept start) :
    kept final := by
  induction h with
  | nil => exact hstart
  | cons _ ih =>
    exact ih (fun other hother => hstep other (mem_cons_of_mem _ hother))
      (hstep _ mem_cons_self hstart)

theorem Run.actions_eq {start final : Gathered} {steps : List CoverStep}
    (h : Run request start steps final)
    (hfound : ∀ step ∈ steps, (step.found request).2.actions = step.before.actions) :
    final.actions = start.actions ++ steps.flatMap (·.actions request) := by
  induction h with
  | nil => simp
  | @cons step steps final _ ih =>
    rw [ih fun other hother => hfound other (mem_cons_of_mem _ hother), flatMap_cons,
      ← append_assoc]
    congr 1
    change (step.found request).2.actions ++ _ = _
    rw [hfound step mem_cons_self]

end Steps

/-! ### What a row rests on -/

/-- What a row of the matrix rests on: nothing was asked for, a step of its own, or actions planned
for the tree above that capture its filesystem. -/
inductive Origin
  | unasked (mutation : MutationDomain)
  | asked (step : CoverStep)
  | captured (mutation : MutationDomain) (boundary : MountBoundary)
      (actions : List ProtectionAction)

namespace Origin

/-- The mutation the row is about. -/
def mutation : Origin → MutationDomain
  | unasked mutation | captured mutation _ _ => mutation
  | asked step => step.mutation

/-- What is found for the row, but for its sentence. -/
def cover (request : CoverageRequest) : Origin → Cover
  | unasked _ => .nothing ""
  | asked step => (step.found request).1
  | captured _ _ actions => ⟨actions, "", false, []⟩

/-- The step of the row. -/
def step : Origin → Option CoverStep
  | asked step => some step
  | _ => none

end Origin

/-- A row is the one an origin describes. -/
structure Describes (request : CoverageRequest) (draft : RowDraft) (origin : Origin) : Prop where
  domain : draft.domain = origin.mutation.domain
  objective : draft.objective = origin.mutation.objective
  protection : draft.protection = plannedProtection (origin.cover request) origin.mutation
  actions : draft.actions = (origin.cover request).actions
  consistency : draft.consistency = weakestConsistency (origin.cover request).actions

section Origins

variable (request : CoverageRequest) (mutation : MutationDomain) (boundaries : List MountBoundary)
  (irrelevant : Bool)

/-- The actions planned for a tree that capture a filesystem in it. -/
def covering (tree : List ProtectionAction) (boundary : MountBoundary) : List ProtectionAction :=
  if boundary.domain.isProtectable then
    tree.filter fun action => captures action.candidate boundary
  else
    []

/-- The filesystems mounted inside another. -/
def inside (boundary : MountBoundary) : List MountBoundary :=
  boundaries.filter fun other =>
    other.mountPoint ≠ boundary.mountPoint && contains boundary.mountPoint other.mountPoint

/-- What the row of a filesystem beneath a subject rests on, where it gets one. -/
def originBeneath (walk : TreeWalk) (boundary : MountBoundary) : Option Origin :=
  if boundary.isTransient then none
  else if covering walk.tree boundary = [] then
    some (.asked ⟨mutation.beneath boundary, some boundary.domain, inside boundaries boundary,
      walk.gathered⟩)
  else
    some (.captured (mutation.beneath boundary) boundary (covering walk.tree boundary))

/-- What the rows beneath a subject rest on. -/
def treeOrigins : List MountBoundary → TreeWalk → List Origin
  | [], _ => []
  | boundary :: rest, walk =>
    (originBeneath mutation boundaries walk boundary).toList ++
      treeOrigins rest (boundaryRow request mutation boundaries irrelevant walk boundary)

/-- What the row of a mutation rests on. -/
def ownOrigin (gathered : Gathered) : Origin :=
  if mutation.objective.isRequired then
    .asked ⟨mutation, request.persistenceFor mutation.subject, boundariesOf request.mounts mutation,
      gathered⟩
  else
    .unasked mutation

/-- The state the walk beneath a mutation begins in. -/
def startWalk (gathered : Gathered) : TreeWalk :=
  let found := ownCover request mutation gathered
  { gathered := found.2.planning found.1.actions
    tree := found.1.actions
    parent := RowDraft.of mutation
      { found.1 with
        note := reachNote mutation (boundariesOf request.mounts mutation) found.1.note }
      (request.policy.isIrrelevant mutation.domain)
    children := [] }

/-- What the rows of one mutation rest on. -/
def mutationOrigins (gathered : Gathered) : List Origin :=
  ownOrigin request mutation gathered ::
    treeOrigins request mutation (boundariesOf request.mounts mutation)
      (request.policy.isIrrelevant mutation.domain) (boundariesOf request.mounts mutation)
      (startWalk request mutation gathered)

/-- What the rows of mutations rest on, mutation by mutation. -/
def allOrigins : List MutationDomain → Gathered → List (MutationDomain × List Origin)
  | [], _ => []
  | mutation :: mutations, gathered =>
    (mutation, mutationOrigins request mutation gathered) ::
      allOrigins mutations (analyseMutation request gathered mutation).1

/-- What the rows of an analysis rest on, mutation by mutation. -/
def origins : List (MutationDomain × List Origin) :=
  allOrigins request request.mutations .empty

/-- The steps of mutations, one mutation after another. -/
def stepsOf (entries : List (MutationDomain × List Origin)) : List CoverStep :=
  entries.flatMap fun entry => entry.2.filterMap Origin.step

/-- The steps of an analysis. -/
def steps : List CoverStep :=
  stepsOf (origins request)

/-- The rows of an analysis before they are composed. -/
def drafts : List RowDraft :=
  (analyseAll request request.mutations .empty).2

end Origins

/-! ### The walk beneath a subject -/

section Beneath

variable {request : CoverageRequest} {mutation : MutationDomain} {boundaries : List MountBoundary}
  {irrelevant : Bool}

/-- The exclusion a filesystem without persistent state becomes. -/
def transientExclusion (mutation : MutationDomain) (boundary : MountBoundary) :
    CoverageExclusion where
  domain := mutation.domain
  subject := boundary.mountPoint
  reason := "§32.3: the mutation of " ++ mutation.subject ++ " reaches " ++ boundary.mountPoint ++
    ", and " ++ boundary.domain.detail
  irreversible := false

theorem boundaryRow_of_not_transient {walk : TreeWalk} {boundary : MountBoundary}
    (hnot : ¬ boundary.isTransient = true) :
    boundaryRow request mutation boundaries irrelevant walk boundary =
      match covering walk.tree boundary with
      | first :: _ =>
        let note := boundary.mountPoint ++ " is the separate " ++ boundary.domain.objectKind ++
          " " ++ boundary.domain.object.getD boundary.mountPoint ++ " beneath " ++
          mutation.subject ++ ", captured by " ++ first.summary ++
          " in the same operation that captures the tree above it (§32.3)"
        let draft := RowDraft.of (mutation.beneath boundary)
          ⟨covering walk.tree boundary, note, false, []⟩ irrelevant
        { walk with children := walk.children ++ [{ draft with exclusions := [] }] }
      | [] =>
        let step : CoverStep := ⟨mutation.beneath boundary, some boundary.domain,
          inside boundaries boundary, walk.gathered⟩
        let exclusions :=
          if (step.found request).1.actions.isEmpty && (step.found request).1.exclusions.isEmpty
          then
            [{ domain := mutation.domain
               subject := boundary.mountPoint
               reason := "§32.3: the mutation of " ++ mutation.subject ++ " reaches " ++
                 boundary.mountPoint ++ ", a separate filesystem nothing captures: " ++
                 (step.found request).1.note
               irreversible := false }]
          else
            (step.found request).1.exclusions
        let note := boundary.mountPoint ++ " is a separate filesystem beneath " ++
          mutation.subject ++ " that the mutation reaches: " ++ (step.found request).1.note
        { walk with
          gathered := step.after request
          tree := walk.tree ++ step.actions request
          children := walk.children ++ [RowDraft.of (mutation.beneath boundary)
            ⟨(step.found request).1.actions, note, (step.found request).1.unknownSemantics,
              exclusions⟩ irrelevant] } :=
  if_neg hnot

/-- **One filesystem beneath a subject**: it is named as an exclusion, captured, or asked about. -/
theorem boundaryRow_cases (walk : TreeWalk) (boundary : MountBoundary) :
    (boundary.isTransient = true ∧ originBeneath mutation boundaries walk boundary = none ∧
      boundaryRow request mutation boundaries irrelevant walk boundary =
        { walk with
          parent := { walk.parent with
            exclusions := walk.parent.exclusions ++ [transientExclusion mutation boundary] } }) ∨
    (boundary.isTransient = false ∧ ∃ draft,
      originBeneath mutation boundaries walk boundary =
        some (.captured (mutation.beneath boundary) boundary (covering walk.tree boundary)) ∧
      boundaryRow request mutation boundaries irrelevant walk boundary =
        { walk with children := walk.children ++ [draft] } ∧
      Describes request draft
        (.captured (mutation.beneath boundary) boundary (covering walk.tree boundary))) ∨
    (boundary.isTransient = false ∧ ∃ draft step,
      step = ⟨mutation.beneath boundary, some boundary.domain, inside boundaries boundary,
        walk.gathered⟩ ∧
      originBeneath mutation boundaries walk boundary = some (.asked step) ∧
      boundaryRow request mutation boundaries irrelevant walk boundary =
        { walk with
          gathered := step.after request
          tree := walk.tree ++ step.actions request
          children := walk.children ++ [draft] } ∧ Describes request draft (.asked step)) := by
  cases htransient : boundary.isTransient with
  | true =>
    refine Or.inl ⟨rfl, ?_, ?_⟩
    · rw [originBeneath, if_pos htransient]
    · exact if_pos htransient
  | false =>
    refine Or.inr ?_
    have hnot : ¬ boundary.isTransient = true := Bool.eq_false_iff.1 htransient
    rw [boundaryRow_of_not_transient hnot, originBeneath, if_neg hnot]
    cases hcovering : covering walk.tree boundary with
    | cons first rest =>
      refine Or.inl ⟨rfl, _, if_neg (cons_ne_nil _ _), rfl, ?_⟩
      exact ⟨rfl, rfl, protectionOf_fst _ _ _ _, rfl, rfl⟩
    | nil =>
      refine Or.inr ⟨rfl, _, _, rfl, if_pos rfl, rfl, ?_⟩
      exact ⟨rfl, rfl, protectionOf_fst _ _ _ _, rfl, rfl⟩

/-- An origin stands at a filesystem beneath a subject. -/
def Stands (mutation : MutationDomain) (boundaries : List MountBoundary) (origin : Origin)
    (boundary : MountBoundary) : Prop :=
  origin.mutation = mutation.beneath boundary ∧
    match origin with
    | .unasked _ => False
    | .asked step => step.persistence = some boundary.domain ∧
        step.boundaries = inside boundaries boundary
    | .captured _ place actions => place = boundary ∧ actions ≠ [] ∧
        boundary.domain.isProtectable = true ∧
        ∀ action ∈ actions, captures action.candidate boundary = true

theorem mem_covering {tree : List ProtectionAction} {boundary : MountBoundary}
    {action : ProtectionAction} (h : action ∈ covering tree boundary) :
    action ∈ tree ∧ boundary.domain.isProtectable = true ∧
      captures action.candidate boundary = true := by
  unfold covering at h
  split_ifs at h with hprotectable
  · exact ⟨(mem_filter.1 h).1, hprotectable, (mem_filter.1 h).2⟩
  · exact absurd h not_mem_nil

/-- What a walk beneath a subject does: its steps are a run, the tree gains what they plan, and each
filesystem is an exclusion of the subject's row or has a row of its own. -/
structure WalksBeneath (request : CoverageRequest) (mutation : MutationDomain)
    (boundaries rest : List MountBoundary) (walk walk' : TreeWalk) (origins : List Origin) :
    Prop where
  run : Run request walk.gathered (origins.filterMap Origin.step) walk'.gathered
  tree : walk'.tree = walk.tree ++ (origins.filterMap Origin.step).flatMap (·.actions request)
  children : ∃ drafts, walk'.children = walk.children ++ drafts ∧
    Forall₂ (Describes request) drafts origins
  parent : walk'.parent = { walk.parent with
    exclusions := walk.parent.exclusions ++
      (rest.filter (·.isTransient)).map (transientExclusion mutation) }
  sites : Forall₂ (Stands mutation boundaries) origins (rest.filter (!·.isTransient))
  captured : ∀ mutation boundary actions, Origin.captured mutation boundary actions ∈ origins →
    ∀ action ∈ actions, action ∈ walk'.tree

/-- **The walk beneath a subject** goes through the steps of its origins. -/
theorem walksBeneath_treeOrigins (rest : List MountBoundary) (walk : TreeWalk) :
    WalksBeneath request mutation boundaries rest walk
      (rest.foldl (boundaryRow request mutation boundaries irrelevant) walk)
      (treeOrigins request mutation boundaries irrelevant rest walk) := by
  induction rest generalizing walk with
  | nil =>
    exact ⟨.nil _, by simp [treeOrigins], ⟨[], by simp, .nil⟩, by simp, .nil, fun _ _ _ h =>
      absurd h not_mem_nil⟩
  | cons boundary rest ih =>
    rw [foldl_cons, treeOrigins]
    rcases @boundaryRow_cases request mutation boundaries irrelevant walk boundary with
      ⟨htransient, horigin, hrow⟩ | ⟨htransient, draft, horigin, hrow, hdescribes⟩ |
      ⟨htransient, draft, step, hstep, horigin, hrow, hdescribes⟩
    · rw [horigin, hrow]
      have h := ih { walk with
        parent := { walk.parent with
          exclusions := walk.parent.exclusions ++ [transientExclusion mutation boundary] } }
      refine ⟨h.run, h.tree, h.children, ?_, ?_, h.captured⟩
      · rw [h.parent]
        simp [htransient]
      · rw [filter_cons_of_neg (by simp [htransient])]
        exact h.sites
    · rw [horigin, hrow]
      have h := ih { walk with children := walk.children ++ [draft] }
      obtain ⟨drafts, hdrafts, hall⟩ := h.children
      have hmem (action : ProtectionAction) (haction : action ∈ covering walk.tree boundary) :=
        mem_covering haction
      have hnonempty : covering walk.tree boundary ≠ [] := by
        intro hnil
        rw [originBeneath, htransient, if_neg Bool.false_ne_true, if_pos hnil] at horigin
        cases horigin
      refine ⟨h.run, h.tree, ⟨draft :: drafts, ?_, .cons hdescribes hall⟩, ?_, ?_, ?_⟩
      · rw [hdrafts]
        simp
      · rw [h.parent]
        simp [htransient]
      · rw [filter_cons_of_pos (by simp [htransient])]
        refine .cons ⟨rfl, rfl, hnonempty, ?_, fun action haction => (hmem action haction).2.2⟩
          h.sites
        obtain ⟨action, haction⟩ := exists_mem_of_ne_nil _ hnonempty
        exact (hmem action haction).2.1
      · intro other place actions hother action haction
        rcases mem_cons.1 hother with heq | hother
        · cases heq
          rw [h.tree]
          exact mem_append_left _ (hmem action haction).1
        · exact h.captured other place actions hother action haction
    · rw [horigin, hrow]
      have h := ih
        { walk with
          gathered := step.after request
          tree := walk.tree ++ step.actions request
          children := walk.children ++ [draft] }
      obtain ⟨drafts, hdrafts, hall⟩ := h.children
      have hbefore : step.before = walk.gathered := by rw [hstep]
      refine ⟨?_, ?_, ⟨draft :: drafts, ?_, .cons hdescribes hall⟩, ?_, ?_, ?_⟩
      · rw [← hbefore]
        exact .cons h.run
      · rw [h.tree]
        simp [Origin.step]
      · rw [hdrafts]
        simp
      · rw [h.parent]
        simp [htransient]
      · rw [filter_cons_of_pos (by simp [htransient])]
        refine .cons ?_ h.sites
        rw [hstep]
        exact ⟨rfl, rfl, rfl⟩
      · intro other place actions hother action haction
        rcases mem_cons.1 hother with heq | hother
        · cases heq
        · exact h.captured other place actions hother action haction

end Beneath

/-! ### The whole analysis -/

section Whole

variable {α β : Type} {related : α → β → Prop} {items : List α} {others : List β}

theorem exists_right (h : Forall₂ related items others) {item : α} (hitem : item ∈ items) :
    ∃ other ∈ others, related item other := by
  induction h with
  | nil => cases hitem
  | cons hrelated _ ih =>
    rcases mem_cons.1 hitem with rfl | hitem
    · exact ⟨_, mem_cons_self, hrelated⟩
    · obtain ⟨other, hother, hrelated⟩ := ih hitem
      exact ⟨other, mem_cons_of_mem _ hother, hrelated⟩

theorem exists_left (h : Forall₂ related items others) {other : β} (hother : other ∈ others) :
    ∃ item ∈ items, related item other :=
  exists_right h.flip hother

variable {request : CoverageRequest}

/-- What the analysis of one mutation does: its row comes first, those of the filesystems beneath it
follow, and each filesystem without persistent state is an exclusion of its row. -/
structure Analyses (request : CoverageRequest) (mutation : MutationDomain)
    (gathered gathered' : Gathered) (drafts : List RowDraft) (origins : List Origin) : Prop where
  run : Run request gathered (origins.filterMap Origin.step) gathered'
  captured : ∀ other boundary actions, Origin.captured other boundary actions ∈ origins →
    ∀ action ∈ actions, ∃ step ∈ origins.filterMap Origin.step, action ∈ step.actions request
  rows : ∃ parent children beneath, drafts = parent :: children ∧
    origins = ownOrigin request mutation gathered :: beneath ∧
    Describes request parent (ownOrigin request mutation gathered) ∧
    Forall₂ (Describes request) children beneath ∧
    Forall₂ (Stands mutation (boundariesOf request.mounts mutation)) beneath
      ((boundariesOf request.mounts mutation).filter (!·.isTransient)) ∧
    ∀ boundary ∈ boundariesOf request.mounts mutation, boundary.isTransient = true →
      transientExclusion mutation boundary ∈ parent.exclusions

theorem planning_nil (gathered : Gathered) : gathered.planning [] = gathered := by
  unfold Gathered.planning
  rw [append_nil]

/-- The row of a mutation rests on its own step, or on nothing. -/
theorem startWalk_run (mutation : MutationDomain) (gathered : Gathered) :
    Run request gathered ((ownOrigin request mutation gathered).step.toList)
        (startWalk request mutation gathered).gathered ∧
      (startWalk request mutation gathered).tree =
        (ownOrigin request mutation gathered).step.toList.flatMap (·.actions request) ∧
      Describes request (startWalk request mutation gathered).parent
        (ownOrigin request mutation gathered) := by
  unfold startWalk ownOrigin ownCover
  split_ifs with hrequired
  · let step : CoverStep := ⟨mutation, request.persistenceFor mutation.subject,
      boundariesOf request.mounts mutation, gathered⟩
    have hrun : Run request step.before [step] (step.after request) := .cons (.nil _)
    exact ⟨hrun, (append_nil _).symm, rfl, rfl, protectionOf_fst _ _ _ _, rfl, rfl⟩
  · refine ⟨?_, rfl, rfl, rfl, protectionOf_fst _ _ _ _, rfl, rfl⟩
    change Run request gathered [] (gathered.planning [])
    rw [planning_nil]
    exact .nil _

/-- **One mutation** is analysed through the steps of its origins. -/
theorem analyses_mutationOrigins (mutation : MutationDomain) (gathered : Gathered) :
    Analyses request mutation gathered (analyseMutation request gathered mutation).1
      (analyseMutation request gathered mutation).2
      (mutationOrigins request mutation gathered) := by
  have h := @walksBeneath_treeOrigins request mutation (boundariesOf request.mounts mutation)
    (request.policy.isIrrelevant mutation.domain) (boundariesOf request.mounts mutation)
    (startWalk request mutation gathered)
  obtain ⟨hrun, htree, hdescribes⟩ := @startWalk_run request mutation gathered
  have hanalyse : analyseMutation request gathered mutation =
      let walk := (boundariesOf request.mounts mutation).foldl
        (boundaryRow request mutation (boundariesOf request.mounts mutation)
          (request.policy.isIrrelevant mutation.domain)) (startWalk request mutation gathered)
      (walk.gathered, walk.parent :: walk.children) := rfl
  rw [hanalyse]
  generalize (boundariesOf request.mounts mutation).foldl _ _ = walk at h ⊢
  obtain ⟨drafts, hdrafts, hall⟩ := h.children
  have hsteps : (mutationOrigins request mutation gathered).filterMap Origin.step =
      (ownOrigin request mutation gathered).step.toList ++
        (treeOrigins request mutation (boundariesOf request.mounts mutation)
          (request.policy.isIrrelevant mutation.domain) (boundariesOf request.mounts mutation)
          (startWalk request mutation gathered)).filterMap Origin.step := by
    unfold mutationOrigins
    rw [filterMap_cons]
    cases (ownOrigin request mutation gathered).step <;> rfl
  refine ⟨?_, fun other boundary actions horigin action haction => ?_, ?_⟩
  · rw [hsteps]
    exact hrun.append h.run
  · rcases mem_cons.1 horigin with heq | horigin
    · unfold ownOrigin at heq
      split_ifs at heq
    · have hmem := h.captured other boundary actions horigin action haction
      rw [h.tree, htree, ← flatMap_append, ← hsteps] at hmem
      exact mem_flatMap.1 hmem
  · refine ⟨walk.parent, drafts, _, ?_, rfl, ?_, hall, h.sites,
      fun boundary hboundary htransient => ?_⟩
    · dsimp only
      rw [hdrafts]
      rfl
    · rw [h.parent]
      exact ⟨hdescribes.domain, hdescribes.objective, hdescribes.protection, hdescribes.actions,
        hdescribes.consistency⟩
    · rw [h.parent]
      exact mem_append_right _
        (mem_map_of_mem (mem_filter.2 ⟨hboundary, htransient⟩))

variable {gathered gathered' : Gathered}

theorem Analyses.described {mutation : MutationDomain} {drafts : List RowDraft}
    {origins : List Origin} (h : Analyses request mutation gathered gathered' drafts origins) :
    Forall₂ (Describes request) drafts origins := by
  obtain ⟨parent, children, beneath, rfl, rfl, hparent, hchildren, -⟩ := h.rows
  exact .cons hparent hchildren

theorem Analyses.same {mutation : MutationDomain} {drafts : List RowDraft} {origins : List Origin}
    (h : Analyses request mutation gathered gathered' drafts origins) :
    ∀ origin ∈ origins, origin.mutation.domain = mutation.domain ∧
      origin.mutation.objective = mutation.objective := by
  obtain ⟨parent, children, beneath, -, rfl, -, -, hsites, -⟩ := h.rows
  intro origin horigin
  rcases mem_cons.1 horigin with rfl | horigin
  · unfold ownOrigin
    split_ifs <;> exact ⟨rfl, rfl⟩
  · obtain ⟨boundary, -, hstands⟩ := exists_right hsites horigin
    rw [hstands.1]
    exact ⟨rfl, rfl⟩

/-- Every mutation is analysed through the steps of its origins, each from what the ones before have
gathered. -/
theorem analyses_allOrigins (mutations : List MutationDomain) (gathered : Gathered) :
    Run request gathered (stepsOf (allOrigins request mutations gathered))
        (analyseAll request mutations gathered).1 ∧
      (∀ entry ∈ allOrigins request mutations gathered, ∃ before after drafts,
        Analyses request entry.1 before after drafts entry.2 ∧
          ∀ draft ∈ drafts, draft ∈ (analyseAll request mutations gathered).2) ∧
      Forall₂ (Describes request) (analyseAll request mutations gathered).2
        ((allOrigins request mutations gathered).flatMap (·.2)) := by
  induction mutations generalizing gathered with
  | nil => exact ⟨.nil _, fun _ h => absurd h not_mem_nil, .nil⟩
  | cons mutation mutations ih =>
    have h := @analyses_mutationOrigins request mutation gathered
    obtain ⟨hrun, hentries, hrows⟩ := ih (analyseMutation request gathered mutation).1
    refine ⟨h.run.append hrun, fun entry hentry => ?_, rel_append h.described hrows⟩
    rcases mem_cons.1 hentry with rfl | hentry
    · exact ⟨_, _, _, h, fun draft hdraft => mem_append_left _ hdraft⟩
    · obtain ⟨before, after, drafts, hanalyses, hmem⟩ := hentries entry hentry
      exact ⟨before, after, drafts, hanalyses, fun draft hdraft =>
        mem_append_right _ (hmem draft hdraft)⟩

/-- **The analysis is the run of its steps.** -/
theorem run_analyse (request : CoverageRequest) :
    Run request .empty (steps request) (analyse request).gathered :=
  (analyses_allOrigins request.mutations .empty).1

/-- **Every row is the one its origin describes.** -/
theorem drafts_of_origins (request : CoverageRequest) :
    Forall₂ (Describes request) (drafts request) ((origins request).flatMap (·.2)) :=
  (analyses_allOrigins request.mutations .empty).2.2

theorem analyses_of_mem_origins {entry : MutationDomain × List Origin}
    (h : entry ∈ origins request) : ∃ before after rows,
      Analyses request entry.1 before after rows entry.2 ∧ ∀ draft ∈ rows, draft ∈ drafts request :=
  (analyses_allOrigins request.mutations .empty).2.1 entry h

end Whole

end OnoSendai.Protection
