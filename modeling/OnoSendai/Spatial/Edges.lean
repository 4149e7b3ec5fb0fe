import OnoSendai.Spatial.Index

/-!
# Lists of edges

The list of edges an entry keeps: recording an assertion, dropping the edges that touch a place,
and what either does to every entry of the index.
-/

namespace OnoSendai.Spatial

open List RelationshipEdge

/-! ### Lists of edges -/

/-- No two edges of a list assert the same. -/
def Distinct (edges : List RelationshipEdge) : Prop :=
  edges.Pairwise fun edge other => edge.sameEdgeAs other = false

namespace SpatialIndex

variable {edge other : RelationshipEdge} {edges : List RelationshipEdge}

theorem mem_putEdge_self (edge : RelationshipEdge) (edges : List RelationshipEdge) :
    edge ∈ putEdge edge edges := by
  induction edges with
  | nil => exact mem_singleton_self edge
  | cons known rest ih =>
    rw [putEdge]
    split_ifs
    · exact mem_cons_self
    · exact mem_cons_of_mem _ ih

theorem mem_of_mem_putEdge (h : other ∈ putEdge edge edges) : other = edge ∨ other ∈ edges := by
  induction edges with
  | nil => exact .inl (mem_singleton.1 h)
  | cons known rest ih =>
    rw [putEdge] at h
    split_ifs at h
    · rcases mem_cons.1 h with rfl | hrest
      · exact .inl rfl
      · exact .inr (mem_cons_of_mem _ hrest)
    · rcases mem_cons.1 h with rfl | hrest
      · exact .inr mem_cons_self
      · exact (ih hrest).imp_right (mem_cons_of_mem _)

theorem mem_putEdge_of_mem (h : other ∈ edges) (hother : other.sameEdgeAs edge = false) :
    other ∈ putEdge edge edges := by
  induction edges with
  | nil => exact absurd h not_mem_nil
  | cons known rest ih =>
    rw [putEdge]
    rcases mem_cons.1 h with rfl | hrest
    · rw [if_neg (by rw [hother]; exact Bool.false_ne_true)]
      exact mem_cons_self
    · split_ifs
      · exact mem_cons_of_mem _ hrest
      · exact mem_cons_of_mem _ (ih hrest)

theorem sameEdgeAs_comm (edge other : RelationshipEdge) :
    edge.sameEdgeAs other = other.sameEdgeAs edge := by
  rw [Bool.eq_iff_iff, sameEdgeAs_iff, sameEdgeAs_iff]
  simp only [eq_comm]

theorem sameEdgeAs_trans {third : RelationshipEdge} (h : edge.sameEdgeAs other = true) :
    edge.sameEdgeAs third = other.sameEdgeAs third := by
  obtain ⟨hsource, htarget, hrelation, hdirection, hconfidence⟩ :=
    sameEdgeAs_iff.1 h
  rw [sameEdgeAs, sameEdgeAs, hsource, htarget, hrelation,
    hdirection, hconfidence]

/-- In a list of distinct edges with `edge` recorded, an other one asserts something else. -/
theorem sameEdgeAs_of_mem_putEdge (hdistinct : Distinct edges) (h : other ∈ putEdge edge edges) :
    other = edge ∨ other ∈ edges ∧ other.sameEdgeAs edge = false := by
  induction edges with
  | nil => exact .inl (mem_singleton.1 h)
  | cons known rest ih =>
    obtain ⟨hknown, hrest⟩ := pairwise_cons.1 hdistinct
    rw [putEdge] at h
    split_ifs at h with hsame
    · rcases mem_cons.1 h with rfl | hmem
      · exact .inl rfl
      · refine .inr ⟨mem_cons_of_mem _ hmem, ?_⟩
        rw [sameEdgeAs_comm, ← sameEdgeAs_trans hsame]
        exact hknown other hmem
    · rcases mem_cons.1 h with rfl | hmem
      · exact .inr ⟨mem_cons_self, Bool.eq_false_of_not_eq_true hsame⟩
      · exact (ih hrest hmem).imp_right fun h => ⟨mem_cons_of_mem _ h.1, h.2⟩

theorem distinct_putEdge (hdistinct : Distinct edges) : Distinct (putEdge edge edges) := by
  induction edges with
  | nil => exact pairwise_singleton _ _
  | cons known rest ih =>
    obtain ⟨hknown, hrest⟩ := pairwise_cons.1 hdistinct
    rw [putEdge]
    split_ifs with hsame
    · refine pairwise_cons.2 ⟨fun other hmem => ?_, hrest⟩
      rw [← sameEdgeAs_trans hsame]
      exact hknown other hmem
    · refine pairwise_cons.2 ⟨fun other hmem => ?_, ih hrest⟩
      rcases mem_of_mem_putEdge hmem with rfl | hmem
      · exact Bool.eq_false_of_not_eq_true hsame
      · exact hknown other hmem

/-- Recording an edge twice is recording it once. -/
theorem putEdge_putEdge (edge : RelationshipEdge) (edges : List RelationshipEdge) :
    putEdge edge (putEdge edge edges) = putEdge edge edges := by
  induction edges with
  | nil => rw [putEdge, putEdge, if_pos edge.sameEdgeAs_self]
  | cons known rest ih =>
    rw [putEdge]
    split_ifs with hsame
    · rw [putEdge, if_pos edge.sameEdgeAs_self]
    · rw [putEdge, if_neg hsame, ih]

/-- A recorded edge leads where its first relation led before, or across itself. -/
theorem neighbour_putEdge (edge : RelationshipEdge) (edges : List RelationshipEdge)
    (relation : String) (subject : SpatialId) :
    neighbour (putEdge edge edges) relation subject = neighbour edges relation subject ∨
      ∃ place, neighbour (putEdge edge edges) relation subject = some place ∧
        edge.otherEnd subject = some place := by
  induction edges with
  | nil =>
    rw [putEdge, neighbour, neighbour]
    by_cases hrelation : edge.relation.id = relation
    · rcases hend : edge.otherEnd subject with _ | place
      · exact .inl (by simp [hrelation, hend])
      · exact .inr ⟨place, by simp [hrelation, hend], rfl⟩
    · exact .inl (by simp [hrelation])
  | cons known rest ih =>
    rw [putEdge]
    split_ifs with hsame
    · refine .inl ?_
      have hend := otherEnd_congr hsame subject
      have hrelation := (sameEdgeAs_iff.1 hsame).2.2.1
      simp only [neighbour, filter_cons, hrelation]
      split_ifs
      · rw [findSome?_cons, findSome?_cons, hend]
      · rfl
    · simp only [neighbour, filter_cons] at ih ⊢
      split_ifs
      · rw [findSome?_cons, findSome?_cons]
        rcases known.otherEnd subject with _ | place
        · exact ih
        · exact .inl rfl
      · exact ih

theorem mem_withoutTouching {id : SpatialId} :
    other ∈ withoutTouching id edges ↔ other ∈ edges ∧ ¬ other.Touches id := by
  rw [withoutTouching, mem_filter, decide_eq_true_eq]

theorem withoutTouching_withoutTouching (id : SpatialId) (edges : List RelationshipEdge) :
    withoutTouching id (withoutTouching id edges) = withoutTouching id edges := by
  rw [withoutTouching, withoutTouching, filter_filter]
  simp only [Bool.and_self]

/-! ### Entries after an operation on edges -/

variable {geography : Geography} {index : SpatialIndex} {id place : SpatialId}

/-- Changing the entries of several places one after the other changes each once, where changing
one twice is changing it once. -/
theorem get_foldl_modify {change : SpatialId → IndexEntry → IndexEntry}
    (hchange : ∀ place entry, change place (change place entry) = change place entry)
    (places : List SpatialId) :
    (places.foldl (fun index place => index.modify place (change place)) index).get place =
      if place ∈ places then (index.get place).map (change place) else index.get place := by
  induction places generalizing index with
  | nil => simp
  | cons first rest ih =>
    rw [foldl_cons, ih, get_modify]
    by_cases hfirst : place = first
    · subst hfirst
      rw [if_pos rfl, if_pos mem_cons_self]
      split_ifs
      · rw [Option.map_map]
        exact congrFun (congrArg _ (funext (hchange place))) _
      · rfl
    · rw [if_neg hfirst]
      simp only [mem_cons, hfirst, false_or]

theorem get_recordEdge :
    (index.recordEdge geography edge).get place =
      if edge.Touches place then (index.get place).map fun entry =>
        rehung geography place (putEdge edge entry.edges) entry.pathParent entry
      else index.get place := by
  let change (place : SpatialId) (entry : IndexEntry) : IndexEntry :=
    rehung geography place (putEdge edge entry.edges) entry.pathParent entry
  have hchange (place : SpatialId) (entry : IndexEntry) :
      change place (change place entry) = change place entry := by
    simp only [change, rehung, putEdge_putEdge]
  have hget := @get_foldl_modify index place change hchange [edge.source, edge.target]
  have hends : place ∈ [edge.source, edge.target] ↔ edge.Touches place := by
    rw [mem_cons, mem_singleton, Touches, eq_comm,
      @eq_comm _ place edge.target]
  simp only [hends] at hget
  exact hget

theorem get_forgetEdges :
    (index.forgetEdges geography id).2.get place =
      if place ∈ index.edgeEnds id then (index.get place).map fun entry =>
        rehung geography place (withoutTouching id entry.edges) entry.pathParent entry
      else index.get place := by
  let change (place : SpatialId) (entry : IndexEntry) : IndexEntry :=
    rehung geography place (withoutTouching id entry.edges) entry.pathParent entry
  have hchange (place : SpatialId) (entry : IndexEntry) :
      change place (change place entry) = change place entry := by
    simp only [change, rehung, withoutTouching_withoutTouching]
  rw [forgetEdges_snd]
  exact get_foldl_modify hchange (index.edgeEnds id)

theorem aliases_foldl_modify (change : SpatialId → IndexEntry → IndexEntry)
    (places : List SpatialId) :
    (places.foldl (fun index place => index.modify place (change place)) index).aliases =
        index.aliases ∧
      (places.foldl (fun index place => index.modify place (change place)) index).identities =
        index.identities := by
  induction places generalizing index with
  | nil => exact ⟨rfl, rfl⟩
  | cons first rest ih =>
    rw [foldl_cons]
    exact ⟨ih.1.trans (aliases_modify _), ih.2.trans (identities_modify _)⟩

theorem aliases_recordEdge (edge : RelationshipEdge) :
    (index.recordEdge geography edge).aliases = index.aliases ∧
      (index.recordEdge geography edge).identities = index.identities :=
  aliases_foldl_modify _ _

theorem aliases_forgetEdges :
    (index.forgetEdges geography id).2.aliases = index.aliases ∧
      (index.forgetEdges geography id).2.identities = index.identities := by
  rw [forgetEdges_snd]
  exact aliases_foldl_modify _ _

end SpatialIndex

end OnoSendai.Spatial
