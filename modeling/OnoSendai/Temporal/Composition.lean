import Mathlib.Data.Rat.Floor
import OnoSendai.Lib.Spans
import OnoSendai.Temporal.Coverage

/-!
# Coverage composition is exact

Intervals are stored with both ends and used from the first to before the last. Over a window of
more than an instant the composition clips them, merges what touches and takes what is left as gaps.
This module proves that the composition is exact: the merged spans are apart and hold what the
intervals hold, so a capability is complete exactly where complete intervals hold every instant of
the window, and its gaps are the longest spans of the window that no covering interval holds a part
of, whatever the order of the intervals.
-/

namespace OnoSendai.Temporal

open Spans List

/-! ### Merging -/

section Merging

variable {union spans : List (Int × Int)} {span : Int × Int}

/-- One span joined to a union whose last span stands first. -/
theorem joinSpan_spec (hunion : Apart union.reverse) (hproper : span.1 < span.2)
    (hafter : ∀ last ∈ union.head?, last.1 ≤ span.1) :
    Apart (joinSpan union span).reverse ∧
      (∀ t, Covers (joinSpan union span) t ↔ Holds span t ∨ Covers union t) ∧
      ∀ last ∈ (joinSpan union span).head?, last.1 ≤ span.1 := by
  cases union with
  | nil =>
    refine ⟨⟨by simpa [joinSpan] using hproper, by simp [joinSpan]⟩, fun t => ?_, by simp [joinSpan]⟩
    simp [joinSpan, Covers]
  | cons last rest =>
    have hle : last.1 ≤ span.1 := hafter last rfl
    obtain ⟨hall, hpairs⟩ := hunion
    rw [pairwise_reverse, pairwise_cons] at hpairs
    simp only [mem_reverse, forall_mem_cons] at hall
    by_cases htouch : span.1 ≤ last.2
    · rw [joinSpan, if_pos htouch]
      refine ⟨⟨?_, ?_⟩, fun t => ?_, fun other hother => ?_⟩
      · simp only [mem_reverse, forall_mem_cons]
        exact ⟨lt_max_of_lt_left hall.1, hall.2⟩
      · rw [pairwise_reverse, pairwise_cons]
        exact hpairs
      · rw [covers_cons_iff, covers_cons_iff, ← or_assoc]
        refine or_congr_left ?_
        simp only [Holds]
        omega
      · obtain rfl := Option.some.inj hother
        exact hle
    · rw [joinSpan, if_neg htouch]
      refine ⟨⟨?_, ?_⟩, fun t => covers_cons_iff, fun other hother => ?_⟩
      · simp only [mem_reverse, forall_mem_cons]
        exact ⟨hproper, hall⟩
      · rw [pairwise_reverse, pairwise_cons]
        refine ⟨forall_mem_cons.2 ⟨not_le.1 htouch, fun other hother => ?_⟩,
          pairwise_cons.2 hpairs⟩
        exact (hpairs.1 other hother).trans (hall.1.trans (not_le.1 htouch))
      · obtain rfl := Option.some.inj hother
        exact le_rfl

/-- Spans in order joined to a union one after another. -/
theorem foldl_joinSpan_spec (hsorted : spans.Pairwise SpanBefore)
    (hproper : ∀ span ∈ spans, span.1 < span.2) (hunion : Apart union.reverse)
    (hafter : ∀ last ∈ union.head?, ∀ span ∈ spans, last.1 ≤ span.1) :
    Apart (spans.foldl joinSpan union).reverse ∧
      ∀ t, Covers (spans.foldl joinSpan union) t ↔ Covers spans t ∨ Covers union t := by
  induction spans generalizing union with
  | nil => exact ⟨hunion, fun t => by simp [Covers]⟩
  | cons span spans ih =>
    rw [pairwise_cons] at hsorted
    rw [forall_mem_cons] at hproper
    obtain ⟨hjoined, hcovers, hhead⟩ := joinSpan_spec hunion hproper.1 fun last hlast =>
      hafter last hlast span mem_cons_self
    obtain ⟨hapart, hall⟩ := ih hsorted.2 hproper.2 hjoined fun last hlast next hnext => by
      have hle := hhead last hlast
      have hbefore := hsorted.1 next hnext
      unfold SpanBefore at hbefore
      omega
    refine ⟨hapart, fun t => ?_⟩
    rw [foldl_cons, hall, hcovers, covers_cons_iff]
    tauto

end Merging

/-! ### One capability -/

section One

variable {intervals : List TemporalCoverage} {start finish : Int}
  {select : TemporalCompleteness → Bool} {capability : String}

theorem mem_clipped_iff (hlt : start < finish) {span : Int × Int} :
    span ∈ clipped intervals start finish select ↔
      ∃ interval ∈ intervals, select interval.completeness = true ∧
        span = (max interval.from' start, min interval.until' finish) ∧ span.1 < span.2 := by
  simp only [clipped, mem_filter, mem_map, Bool.or_eq_true, Bool.and_eq_true,
    decide_eq_true_eq]
  constructor
  · rintro ⟨⟨interval, ⟨hmem, hselect⟩, rfl⟩, hproper | ⟨heq, -⟩⟩
    · exact ⟨interval, hmem, hselect, rfl, hproper⟩
    · omega
  · rintro ⟨interval, hmem, hselect, rfl, hproper⟩
    exact ⟨⟨interval, ⟨hmem, hselect⟩, rfl⟩, .inl hproper⟩

/-- **Merging keeps what the selected intervals hold of the window,** in spans that are apart. -/
theorem merged_spec (hlt : start < finish) :
    Apart (merged intervals start finish select) ∧
      (∀ span ∈ merged intervals start finish select, start ≤ span.1 ∧ span.2 ≤ finish) ∧
      ∀ t, Covers (merged intervals start finish select) t ↔ start ≤ t ∧ t < finish ∧
        ∃ interval ∈ intervals, select interval.completeness = true ∧
          interval.from' ≤ t ∧ t < interval.until' := by
  have htotal : Std.Total SpanBefore := ⟨fun one two => by unfold SpanBefore; omega⟩
  have htrans : IsTrans (Int × Int) SpanBefore := ⟨fun _ _ _ => by unfold SpanBefore; omega⟩
  have hsorted := pairwise_insertionSort SpanBefore (clipped intervals start finish select)
  obtain ⟨hapart, hcovers⟩ := @foldl_joinSpan_spec [] _ hsorted
    (fun span hspan => by
      obtain ⟨-, -, -, -, hproper⟩ := (mem_clipped_iff hlt).1 ((mem_insertionSort _).1 hspan)
      exact hproper)
    ⟨by simp, by simp⟩ (by simp)
  have hwindow : ∀ t, Covers (merged intervals start finish select) t ↔ start ≤ t ∧ t < finish ∧
      ∃ interval ∈ intervals, select interval.completeness = true ∧
        interval.from' ≤ t ∧ t < interval.until' := by
    intro t
    have hreverse : Covers (merged intervals start finish select) t ↔
        Covers (clipped intervals start finish select) t := by
      have hall := hcovers t
      simp only [Covers, mem_insertionSort, not_mem_nil, false_and, exists_false,
        or_false] at hall
      simp only [Covers, merged, mem_reverse]
      exact hall
    rw [hreverse]
    constructor
    · rintro ⟨span, hspan, hholds⟩
      obtain ⟨interval, hmem, hselect, rfl, -⟩ := (mem_clipped_iff hlt).1 hspan
      simp only [Holds] at hholds
      exact ⟨by omega, by omega, interval, hmem, hselect, by omega, by omega⟩
    · rintro ⟨hstart, hfinish, interval, hmem, hselect, hfrom, huntil⟩
      refine ⟨_, (mem_clipped_iff hlt).2 ⟨interval, hmem, hselect, rfl, ?_⟩, ?_⟩
      · simp only
        omega
      · simp only [Holds]
        omega
  refine ⟨hapart, fun span hspan => ?_, hwindow⟩
  have hproper := hapart.1 span hspan
  have hfirst := (hwindow span.1).1 ⟨span, hspan, le_rfl, hproper⟩
  have hlast := (hwindow (span.2 - 1)).1 ⟨span, hspan, by omega, by omega⟩
  omega

/-- **The holes of a union are its gaps,** and they are apart. -/
theorem holesFrom_spec {union : List (Int × Int)} {cursor : Int} (hapart : Apart union)
    (hcursor : ∀ span ∈ union, cursor ≤ span.1) (hfinish : ∀ span ∈ union, span.2 ≤ finish) :
    (∀ gap, gap ∈ holesFrom finish cursor union ↔ IsGap (Covers union) cursor finish gap) ∧
      Apart (holesFrom finish cursor union) := by
  induction union generalizing cursor with
  | nil =>
    unfold holesFrom
    split_ifs with hlt
    · exact ⟨fun gap => by rw [isGap_nil_iff, mem_singleton, and_iff_right hlt],
        by simpa using hlt, by simp⟩
    · exact ⟨fun gap => by rw [isGap_nil_iff]; simp [hlt], by simp, .nil⟩
  | cons span union ih =>
    rw [forall_mem_cons] at hcursor hfinish
    obtain ⟨hproper, hlater, hrest⟩ := apart_cons_iff.1 hapart
    obtain ⟨hgaps, hholes⟩ := ih hrest (fun next hnext => (hlater next hnext).le) hfinish.2
    have hmax : max cursor span.2 = span.2 := by omega
    rw [holesFrom, hmax]
    refine ⟨fun gap => ?_, ?_⟩
    · rw [isGap_cons_iff hapart hcursor.1 hfinish.1, mem_append, hgaps]
      refine or_congr_left ?_
      split_ifs with hlt
      · rw [mem_singleton, and_iff_right hlt]
      · simp [hlt]
    · split_ifs with hlt
      · refine apart_cons_iff.2 ⟨hlt, fun next hnext => ?_, hholes⟩
        exact hproper.trans_le ((hgaps next).1 hnext).start_le
      · exact hholes

theorem holesIn_spec (hlt : start < finish) :
    (∀ gap, gap ∈ holesIn start finish (merged intervals start finish select) ↔
        IsGap (Covers (merged intervals start finish select)) start finish gap) ∧
      Apart (holesIn start finish (merged intervals start finish select)) := by
  obtain ⟨hapart, hbounds, -⟩ := @merged_spec intervals _ _ select hlt
  rw [holesIn, if_neg hlt.ne]
  exact holesFrom_spec hapart (fun span hspan => (hbounds span hspan).1)
    fun span hspan => (hbounds span hspan).2

theorem isEmpty_merged_iff (hlt : start < finish) :
    (merged intervals start finish select).isEmpty = true ↔
      ¬ ∃ t, Covers (merged intervals start finish select) t := by
  obtain ⟨hapart, -, -⟩ := @merged_spec intervals _ _ select hlt
  rw [List.isEmpty_iff]
  constructor
  · rintro hnil ⟨t, span, hspan, -⟩
    rw [hnil] at hspan
    exact not_mem_nil hspan
  · intro hnone
    refine eq_nil_iff_forall_not_mem.2 fun span hspan => hnone ?_
    exact ⟨span.1, span, hspan, le_rfl, hapart.1 span hspan⟩

/-- No hole is left where the spans hold the whole window. -/
theorem isEmpty_holesIn_iff (hlt : start < finish) :
    (holesIn start finish (merged intervals start finish select)).isEmpty = true ↔
      ∀ t, start ≤ t → t < finish → Covers (merged intervals start finish select) t := by
  obtain ⟨hapart, hbounds, -⟩ := @merged_spec intervals _ _ select hlt
  obtain ⟨hgaps, -⟩ := @holesIn_spec intervals _ _ select hlt
  rw [List.isEmpty_iff, List.eq_nil_iff_forall_not_mem]
  constructor
  · intro hnone t hstart hfinish
    by_contra hfree
    obtain ⟨gap, hgap⟩ := exists_isGap hapart (fun span hspan => (hbounds span hspan).1)
      (fun span hspan => (hbounds span hspan).2) hstart hfinish hfree
    exact hnone gap ((hgaps gap).2 hgap)
  · intro hall gap hmem
    have hgap := (hgaps gap).1 hmem
    refine hgap.free gap.1 ⟨le_rfl, hgap.proper⟩ (hall gap.1 hgap.start_le ?_)
    exact hgap.proper.trans_le hgap.le_finish

variable {others : List TemporalCoverage}

/-- **Merging does not depend on the order of the intervals.** -/
theorem merged_perm (hperm : intervals.Perm others) :
    merged intervals start finish select = merged others start finish select := by
  have htotal : Std.Total SpanBefore := ⟨fun one two => by unfold SpanBefore; omega⟩
  have htrans : IsTrans (Int × Int) SpanBefore := ⟨fun _ _ _ => by unfold SpanBefore; omega⟩
  have hclipped : (clipped intervals start finish select).Perm
      (clipped others start finish select) := ((hperm.filter _).map _).filter _
  have hsorted : (clipped intervals start finish select).insertionSort SpanBefore =
      (clipped others start finish select).insertionSort SpanBefore := by
    refine Perm.eq_of_pairwise (fun one two _ _ hle hge => ?_)
      (pairwise_insertionSort SpanBefore _) (pairwise_insertionSort SpanBefore _)
      (((perm_insertionSort _ _).trans hclipped).trans (perm_insertionSort _ _).symm)
    unfold SpanBefore at hle hge
    exact Prod.ext (by omega) (by omega)
  rw [merged, merged, hsorted]

theorem weakestState_perm (hperm : intervals.Perm others) :
    weakestState intervals = weakestState others := by
  unfold weakestState
  rw [hperm.any_eq, hperm.any_eq, hperm.any_eq]

theorem spans_composeOne :
    ((composeOne intervals start finish capability).2.map fun gap => (gap.from', gap.until')) =
      holesIn start finish (merged intervals start finish (·.isCovering)) := by
  unfold composeOne
  rw [map_map]
  exact map_id _

theorem composeOne_perm (hperm : intervals.Perm others) :
    (composeOne intervals start finish capability).1 =
        (composeOne others start finish capability).1 ∧
      ((composeOne intervals start finish capability).2.map fun gap => (gap.from', gap.until')) =
        (composeOne others start finish capability).2.map fun gap => (gap.from', gap.until') := by
  rw [spans_composeOne, spans_composeOne, merged_perm hperm]
  refine ⟨?_, rfl⟩
  unfold composeOne
  simp only [merged_perm hperm, weakestState_perm hperm]

theorem capability_of_mem_composeOne {gap : TemporalGap}
    (h : gap ∈ (composeOne intervals start finish capability).2) : gap.capability = capability := by
  obtain ⟨hole, -, rfl⟩ := mem_map.1 h
  rfl

theorem weakestState_not_covering : (weakestState intervals).isCovering = false := by
  unfold weakestState
  split_ifs <;> rfl

/-- **The state of one capability** over a window of more than an instant. -/
theorem composeOne_state_iff (hlt : start < finish) :
    ((composeOne intervals start finish capability).1 = .complete ↔
        ∀ t, start ≤ t → t < finish → Covers (merged intervals start finish (· = .complete)) t) ∧
      ((composeOne intervals start finish capability).1 = .partial' ↔
        (¬ ∀ t, start ≤ t → t < finish → Covers (merged intervals start finish (· = .complete)) t) ∧
        ∃ t, Covers (merged intervals start finish (·.isCovering)) t) := by
  have hweak := @weakestState_not_covering intervals
  have hcomplete : ((holesIn start finish (merged intervals start finish (· = .complete))).isEmpty &&
      !(merged intervals start finish (· = .complete)).isEmpty) = true ↔
      ∀ t, start ≤ t → t < finish → Covers (merged intervals start finish (· = .complete)) t := by
    rw [Bool.and_eq_true, isEmpty_holesIn_iff hlt, and_iff_left_iff_imp, Bool.not_eq_true',
      ← Bool.not_eq_true, isEmpty_merged_iff hlt, not_not]
    exact fun hall => ⟨start, hall start le_rfl hlt⟩
  have hcovering : (!(merged intervals start finish (·.isCovering)).isEmpty) = true ↔
      ∃ t, Covers (merged intervals start finish (·.isCovering)) t := by
    rw [Bool.not_eq_true', ← Bool.not_eq_true, isEmpty_merged_iff hlt, not_not]
  rw [← hcomplete, ← hcovering]
  unfold composeOne
  dsimp only
  split_ifs with hall hsome
  · simp [hall]
  · simp [hall, hsome]
  · refine ⟨iff_of_false (fun h => ?_) hall, iff_of_false (fun h => ?_) fun h => hsome h.2⟩
    · simp [h, TemporalCompleteness.isCovering] at hweak
    · simp [h, TemporalCompleteness.isCovering] at hweak

end One

/-! ### The composition of a window -/

/-- The instants that complete intervals of a capability hold. -/
def CompletelyAt (intervals : List TemporalCoverage) (capability : String) (t : Int) : Prop :=
  ∃ interval ∈ intervals, interval.capability = capability ∧
    interval.completeness = .complete ∧ interval.from' ≤ t ∧ t < interval.until'

/-- The instants that covering intervals of a capability hold. -/
def CoveredAt (intervals : List TemporalCoverage) (capability : String) (t : Int) : Prop :=
  ∃ interval ∈ intervals, interval.capability = capability ∧
    interval.completeness.isCovering = true ∧ interval.from' ≤ t ∧ t < interval.until'

/-- The gaps of one capability, in the order they are reported. -/
def CoverageSummary.gapSpans (summary : CoverageSummary) (capability : String) :
    List (Int × Int) :=
  (summary.gaps.filter fun gap => gap.capability = capability).map fun gap =>
    (gap.from', gap.until')

namespace CoverageSummary

section Window

variable {intervals others : List TemporalCoverage} {start finish : Int} {capability : String}

variable {select : TemporalCompleteness → Bool}

/-- The intervals of a capability that hold an instant of the window are among the relevant. -/
theorem covers_relevant_iff (hlt : start < finish) (t : Int) :
    Covers (merged (relevant intervals start finish capability) start finish select) t ↔
      start ≤ t ∧ t < finish ∧ ∃ interval ∈ intervals, interval.capability = capability ∧
        select interval.completeness = true ∧ interval.from' ≤ t ∧ t < interval.until' := by
  rw [(merged_spec hlt).2.2 t]
  refine and_congr_right fun hstart => and_congr_right fun hfinish => ?_
  constructor
  · rintro ⟨interval, hmem, hselect, hfrom, huntil⟩
    obtain ⟨hmem, hrelevant⟩ := mem_filter.1 hmem
    simp only [Bool.and_eq_true, decide_eq_true_eq] at hrelevant
    exact ⟨interval, hmem, hrelevant.1, hselect, hfrom, huntil⟩
  · rintro ⟨interval, hmem, hname, hselect, hfrom, huntil⟩
    refine ⟨interval, mem_filter.2 ⟨hmem, ?_⟩, hselect, hfrom, huntil⟩
    have hoverlaps : interval.overlaps start finish = true := by
      unfold TemporalCoverage.overlaps
      rw [if_neg (by omega)]
      simp only [Bool.or_eq_true, Bool.and_eq_true, decide_eq_true_eq]
      omega
    simp [hname, hoverlaps]

theorem effectiveWindow_between (hlt : start < finish) :
    effectiveWindow intervals (.between start finish) = some (start, finish) := by
  simp [effectiveWindow, TimeRange.between, hlt.le]

/-- The capabilities a composition over a window lists. -/
def touched (intervals : List TemporalCoverage) (start finish : Int) : List String :=
  distinctTexts ((intervals.filter (·.overlaps start finish)).map (·.capability))

theorem mem_touched_iff : capability ∈ touched intervals start finish ↔
    ∃ interval ∈ intervals, interval.capability = capability ∧
      interval.overlaps start finish = true := by
  rw [touched, mem_distinctTexts, mem_map]
  simp only [mem_filter]
  exact exists_congr fun interval => by tauto

theorem capabilities_compose (hlt : start < finish) :
    (compose intervals (.between start finish)).capabilities =
      (touched intervals start finish).map fun capability =>
        (capability,
          (composeOne (relevant intervals start finish capability) start finish capability).1) := by
  unfold compose
  rw [effectiveWindow_between hlt]
  simp only [touched, map_map, Function.comp_def]

theorem gaps_compose (hlt : start < finish) :
    (compose intervals (.between start finish)).gaps =
      (touched intervals start finish).flatMap fun capability =>
        (composeOne (relevant intervals start finish capability) start finish capability).2 := by
  unfold compose
  rw [effectiveWindow_between hlt]
  simp only [touched, flatMap_map]

theorem completenessOf_compose (hlt : start < finish)
    (hmem : capability ∈ touched intervals start finish) :
    (compose intervals (.between start finish)).completenessOf capability =
      some (composeOne (relevant intervals start finish capability) start finish capability).1 := by
  rw [completenessOf, capabilities_compose hlt, find?_map]
  obtain ⟨text, hfind⟩ := Option.isSome_iff_exists.1
    (find?_isSome (p := fun text => decide (text = capability)).2 ⟨capability, hmem, by simp⟩)
  obtain rfl : text = capability := by simpa using find?_some hfind
  simp only [Function.comp_def, hfind, Option.map_some]

theorem completenessOf_compose_eq_none (hlt : start < finish)
    (hnot : capability ∉ touched intervals start finish) :
    (compose intervals (.between start finish)).completenessOf capability = none := by
  rw [completenessOf, capabilities_compose hlt, Option.map_eq_none_iff, find?_eq_none]
  rintro ⟨text, state⟩ hpair
  obtain ⟨other, hother, hpair⟩ := mem_map.1 hpair
  obtain ⟨rfl, -⟩ := Prod.mk.inj hpair
  simpa using fun h : other = capability => hnot (h ▸ hother)

theorem touched_nodup : (touched intervals start finish).Nodup := by
  have : Std.Antisymm TextBefore := ⟨fun _ _ hab hba => String.le_antisymm hab hba⟩
  have : Std.Total TextBefore := ⟨fun a b => String.le_total a b⟩
  have : IsTrans String TextBefore := ⟨fun _ _ _ hab hbc => String.le_trans hab hbc⟩
  rw [touched, distinctTexts, (pairwise_insertionSort TextBefore _).destutter_eq_dedup]
  exact nodup_dedup _

/-- The gaps of one capability among those of several. -/
theorem filter_flatMap_gaps {texts : List String} {gaps : String → List TemporalGap}
    (hnodup : texts.Nodup) (hown : ∀ text, ∀ gap ∈ gaps text, gap.capability = text) :
    ((texts.flatMap gaps).filter fun gap => gap.capability = capability) =
      if capability ∈ texts then gaps capability else [] := by
  induction texts with
  | nil => rfl
  | cons text texts ih =>
    rw [nodup_cons] at hnodup
    rw [flatMap_cons, filter_append, ih hnodup.2]
    by_cases heq : text = capability
    · subst heq
      rw [if_neg hnodup.1, if_pos mem_cons_self, append_nil, filter_eq_self]
      exact fun gap hgap => by simpa using hown text gap hgap
    · have hnone : ((gaps text).filter fun gap => gap.capability = capability) = [] := by
        refine filter_eq_nil_iff.2 fun gap hgap => ?_
        simpa [hown text gap hgap] using heq
      rw [hnone, nil_append]
      have hmem : capability ∈ text :: texts ↔ capability ∈ texts := by
        simp [Ne.symm heq]
      simp only [hmem]

theorem gapSpans_compose (hlt : start < finish) :
    (compose intervals (.between start finish)).gapSpans capability =
      if capability ∈ touched intervals start finish then
        holesIn start finish
          (merged (relevant intervals start finish capability) start finish (·.isCovering))
      else [] := by
  rw [gapSpans, gaps_compose hlt, filter_flatMap_gaps touched_nodup fun text gap =>
    capability_of_mem_composeOne]
  split_ifs
  · exact spans_composeOne
  · rfl

theorem touched_perm (hperm : intervals.Perm others) :
    touched intervals start finish = touched others start finish := by
  have hantisymm : Std.Antisymm TextBefore := ⟨fun _ _ hab hba => String.le_antisymm hab hba⟩
  have htotal : Std.Total TextBefore := ⟨fun a b => String.le_total a b⟩
  have htrans : IsTrans String TextBefore := ⟨fun _ _ _ hab hbc => String.le_trans hab hbc⟩
  rw [touched, touched, distinctTexts, distinctTexts]
  congr 1
  refine Perm.eq_of_pairwise (fun one two _ _ hle hge => String.le_antisymm hle hge)
    (pairwise_insertionSort TextBefore _) (pairwise_insertionSort TextBefore _) ?_
  exact ((perm_insertionSort _ _).trans ((hperm.filter _).map _)).trans
    (perm_insertionSort _ _).symm

/-- The states and the gap spans do not depend on the order of the intervals. -/
theorem compose_perm (hlt : start < finish) (hperm : intervals.Perm others) :
    (compose intervals (.between start finish)).capabilities =
        (compose others (.between start finish)).capabilities ∧
      ((compose intervals (.between start finish)).gaps.map fun gap =>
          (gap.capability, gap.from', gap.until')) =
        (compose others (.between start finish)).gaps.map fun gap =>
          (gap.capability, gap.from', gap.until') := by
  have hrelevant : ∀ capability, (relevant intervals start finish capability).Perm
      (relevant others start finish capability) := fun capability => hperm.filter _
  rw [capabilities_compose hlt, capabilities_compose hlt, gaps_compose hlt, gaps_compose hlt,
    touched_perm hperm, map_flatMap, map_flatMap]
  have hown : ∀ (intervals : List TemporalCoverage) (capability : String),
      ((composeOne intervals start finish capability).2.map fun gap =>
          (gap.capability, gap.from', gap.until')) =
        ((composeOne intervals start finish capability).2.map fun gap =>
          (gap.from', gap.until')).map fun span => (capability, span) := by
    intro intervals capability
    rw [map_map]
    refine map_congr_left fun gap hgap => ?_
    rw [Function.comp_apply, capability_of_mem_composeOne hgap]
  refine ⟨map_congr_left fun capability _ => ?_, flatMap_congr fun capability _ => ?_⟩
  · rw [(composeOne_perm (hrelevant capability)).1]
  · rw [hown, hown, (composeOne_perm (hrelevant capability)).2]

/-- Intervals with whole ends that hold every instant hold every moment between two instants. -/
theorem forall_moment_iff :
    (∀ t, start ≤ t → t < finish → CompletelyAt intervals capability t) ↔
      ∀ moment : ℚ, start ≤ moment → moment < finish →
        ∃ interval ∈ intervals, interval.capability = capability ∧
          interval.completeness = .complete ∧
          (interval.from' : ℚ) ≤ moment ∧ moment ≤ interval.until' := by
  constructor
  · intro hall moment hstart hfinish
    have hfloor : (⌊moment⌋ : ℚ) ≤ moment := Int.floor_le moment
    have hbefore : moment < ⌊moment⌋ + 1 := Int.lt_floor_add_one moment
    obtain ⟨interval, hmem, hname, hcomplete, hfrom, huntil⟩ :=
      hall ⌊moment⌋ (Int.le_floor.2 hstart) (Int.floor_lt.2 hfinish)
    have hfrom : (interval.from' : ℚ) ≤ ⌊moment⌋ := Int.cast_le.2 hfrom
    have huntil : (⌊moment⌋ : ℚ) + 1 ≤ interval.until' := by exact_mod_cast huntil
    exact ⟨interval, hmem, hname, hcomplete, hfrom.trans hfloor, (hbefore.trans_le huntil).le⟩
  · intro hall t hstart hfinish
    -- No interval ends inside an instant, so the middle of the instant tells for all of it.
    have hstart : (start : ℚ) ≤ t := Int.cast_le.2 hstart
    have hfinish : (t : ℚ) + 1 ≤ finish := by exact_mod_cast hfinish
    obtain ⟨interval, hmem, hname, hcomplete, hfrom, huntil⟩ :=
      hall (t + 1 / 2) (by linarith) (by linarith)
    have hfrom : (interval.from' : ℚ) < t + 1 := by linarith
    have huntil : (t : ℚ) < interval.until' := by linarith
    refine ⟨interval, hmem, hname, hcomplete, Int.lt_add_one_iff.1 ?_, Int.cast_lt.1 huntil⟩
    exact_mod_cast hfrom

theorem completenessOf_eq_some_iff (hlt : start < finish) {state : TemporalCompleteness} :
    (compose intervals (.between start finish)).completenessOf capability = some state ↔
      capability ∈ touched intervals start finish ∧
        (composeOne (relevant intervals start finish capability) start finish capability).1 =
          state := by
  by_cases hmem : capability ∈ touched intervals start finish
  · rw [completenessOf_compose hlt hmem, Option.some.injEq, and_iff_right hmem]
  · rw [completenessOf_compose_eq_none hlt hmem]
    simp [hmem]

theorem mem_touched_of_covers {t : Int}
    (h : Covers (merged (relevant intervals start finish capability) start finish select) t) :
    capability ∈ touched intervals start finish := by
  rw [mem_touched_iff]
  by_contra hnone
  have hnil : relevant intervals start finish capability = [] := by
    refine filter_eq_nil_iff.2 fun interval hmem hrelevant => hnone ?_
    simp only [Bool.and_eq_true, decide_eq_true_eq] at hrelevant
    exact ⟨interval, hmem, hrelevant⟩
  rw [hnil] at h
  obtain ⟨span, hspan, -⟩ := h
  simp [merged, clipped] at hspan

/-- **Complete is complete at every instant of the window.** -/
theorem completenessOf_eq_complete_iff (hlt : start < finish) :
    (compose intervals (.between start finish)).completenessOf capability = some .complete ↔
      ∀ t, start ≤ t → t < finish → CompletelyAt intervals capability t := by
  have hholds := @covers_relevant_iff intervals _ _ capability (· = .complete) hlt
  simp only [decide_eq_true_eq] at hholds
  rw [completenessOf_eq_some_iff hlt, (composeOne_state_iff hlt).1]
  constructor
  · rintro ⟨-, hall⟩ t hstart hfinish
    exact ((hholds t).1 (hall t hstart hfinish)).2.2
  · intro hall
    have hcovers : ∀ t, start ≤ t → t < finish → Covers
        (merged (relevant intervals start finish capability) start finish (· = .complete)) t :=
      fun t hstart hfinish => (hholds t).2 ⟨hstart, hfinish, hall t hstart hfinish⟩
    exact ⟨mem_touched_of_covers (hcovers start le_rfl hlt), hcovers⟩

/-- **Partial is a part of the window covered** without its being complete. -/
theorem completenessOf_eq_partial_iff (hlt : start < finish) :
    (compose intervals (.between start finish)).completenessOf capability = some .partial' ↔
      (¬ ∀ t, start ≤ t → t < finish → CompletelyAt intervals capability t) ∧
        ∃ interval ∈ intervals, interval.capability = capability ∧
          interval.completeness.isCovering = true ∧
          max interval.from' start < min interval.until' finish := by
  have hholds := @covers_relevant_iff intervals _ _ capability (·.isCovering) hlt
  rw [completenessOf_eq_some_iff hlt, (composeOne_state_iff hlt).2]
  have hcomplete : capability ∈ touched intervals start finish →
      ((∀ t, start ≤ t → t < finish → Covers (merged (relevant intervals start finish capability)
          start finish (· = .complete)) t) ↔
        ∀ t, start ≤ t → t < finish → CompletelyAt intervals capability t) := by
    intro hmem
    rw [← completenessOf_eq_complete_iff hlt, completenessOf_eq_some_iff hlt,
      and_iff_right hmem, (composeOne_state_iff hlt).1]
  constructor
  · rintro ⟨hmem, hnot, t, hcovers⟩
    obtain ⟨hstart, hfinish, interval, hinterval, hname, hcovering, hfrom, huntil⟩ :=
      (hholds t).1 hcovers
    exact ⟨fun hall => hnot ((hcomplete hmem).2 hall), interval, hinterval, hname, hcovering,
      by omega⟩
  · rintro ⟨hnot, interval, hinterval, hname, hcovering, hproper⟩
    have hcovers := (hholds (max interval.from' start)).2 ⟨by omega, by omega, interval, hinterval,
      hname, hcovering, by omega, by omega⟩
    have hmem := mem_touched_of_covers hcovers
    exact ⟨hmem, fun hall => hnot ((hcomplete hmem).1 hall), _, hcovers⟩

/-- **The gaps are the longest spans of the window without coverage.** -/
theorem mem_gapSpans_iff (hlt : start < finish)
    (hmem : capability ∈ touched intervals start finish) (gap : Int × Int) :
    gap ∈ (compose intervals (.between start finish)).gapSpans capability ↔
      IsGap (CoveredAt intervals capability) start finish gap := by
  rw [gapSpans_compose hlt, if_pos hmem, (holesIn_spec hlt).1]
  refine IsGap.congr fun t hstart hfinish => ?_
  rw [covers_relevant_iff hlt, and_iff_right hstart, and_iff_right hfinish]
  rfl

theorem apart_gapSpans (hlt : start < finish) :
    Apart ((compose intervals (.between start finish)).gapSpans capability) := by
  rw [gapSpans_compose hlt]
  split_ifs
  · exact (holesIn_spec hlt).2
  · exact ⟨by simp, .nil⟩

end Window

/-- **The composition of a window is exact.** A capability composes to complete exactly where
complete intervals hold every instant of the window, which is to hold, with both ends, every moment
of it; to partial where that fails and a covering interval meets the window in more than a point.
The gaps of a listed capability are the longest spans of the window no covering interval holds a
part of, apart and in order, and neither states nor gaps depend on the order of the intervals. What
proves an absence therefore held the capability completely all over the window. -/
theorem compose_exact (intervals : List TemporalCoverage) {start finish : Int}
    (hlt : start < finish) (capability : String) :
    ((compose intervals (.between start finish)).completenessOf capability = some .complete ↔
        ∀ t, start ≤ t → t < finish → CompletelyAt intervals capability t) ∧
      ((∀ t, start ≤ t → t < finish → CompletelyAt intervals capability t) ↔
        ∀ moment : ℚ, start ≤ moment → moment < finish →
          ∃ interval ∈ intervals, interval.capability = capability ∧
            interval.completeness = .complete ∧
            (interval.from' : ℚ) ≤ moment ∧ moment ≤ interval.until') ∧
      ((compose intervals (.between start finish)).completenessOf capability = some .partial' ↔
        (¬ ∀ t, start ≤ t → t < finish → CompletelyAt intervals capability t) ∧
          ∃ interval ∈ intervals, interval.capability = capability ∧
            interval.completeness.isCovering = true ∧
            max interval.from' start < min interval.until' finish) ∧
      ((∃ interval ∈ intervals, interval.capability = capability ∧
          interval.overlaps start finish = true) →
        ∀ gap, gap ∈ (compose intervals (.between start finish)).gapSpans capability ↔
          IsGap (CoveredAt intervals capability) start finish gap) ∧
      ((¬ ∃ interval ∈ intervals, interval.capability = capability ∧
          interval.overlaps start finish = true) →
        (compose intervals (.between start finish)).completenessOf capability = none ∧
          (compose intervals (.between start finish)).gapSpans capability = []) ∧
      Apart ((compose intervals (.between start finish)).gapSpans capability) ∧
      (∀ others, intervals.Perm others →
        (compose intervals (.between start finish)).capabilities =
            (compose others (.between start finish)).capabilities ∧
          ((compose intervals (.between start finish)).gaps.map fun gap =>
              (gap.capability, gap.from', gap.until')) =
            (compose others (.between start finish)).gaps.map fun gap =>
              (gap.capability, gap.from', gap.until')) ∧
      ((compose intervals (.between start finish)).canProveAbsence capability = true →
        ∀ t, start ≤ t → t < finish → CompletelyAt intervals capability t) := by
  refine ⟨completenessOf_eq_complete_iff hlt, forall_moment_iff, completenessOf_eq_partial_iff hlt,
    fun hmem => mem_gapSpans_iff hlt (mem_touched_iff.2 hmem), fun hnot => ?_, apart_gapSpans hlt,
    fun others hperm => compose_perm hlt hperm, fun hproves => ?_⟩
  · rw [← mem_touched_iff] at hnot
    refine ⟨completenessOf_compose_eq_none hlt hnot, ?_⟩
    rw [gapSpans_compose hlt, if_neg hnot]
  · unfold canProveAbsence at hproves
    rw [Bool.and_eq_true, decide_eq_true_eq] at hproves
    exact (completenessOf_eq_complete_iff hlt).1 hproves.1

/-- A complete claim of a session about the processes of a host. -/
def watched (from' until' : Int) : TemporalCoverage where
  scope := fallbackScope
  capability := "process"
  from'
  until'
  completeness := .complete
  samplingInterval := none
  source := .session
  permission := .available

theorem compose_exact_touching :
    (compose [watched 5 9, watched 0 5] (.between 0 9)).completenessOf "process" =
      some .complete := by
  refine (compose_exact [watched 5 9, watched 0 5] (by decide) "process").1.2 fun t hstart hfinish =>
    ?_
  by_cases hfirst : t < 5
  · exact ⟨watched 0 5, by simp, rfl, rfl, hstart, hfirst⟩
  · exact ⟨watched 5 9, by simp, rfl, rfl, not_lt.1 hfirst, hfinish⟩

/-- **A capability that no interval brings into the window has no gap.** Nothing covers the
processes from 10 to 20, and no gap of them is reported. -/
theorem not_compose_exact_elsewhere : ¬∀ (intervals : List TemporalCoverage) (start finish : Int),
    start < finish → ∀ capability gap,
      gap ∈ (compose intervals (.between start finish)).gapSpans capability ↔
        IsGap (CoveredAt intervals capability) start finish gap := by
  intro h
  have hgap : IsGap (CoveredAt [watched 0 5] "process") 10 20 (10, 20) := by
    refine ⟨by decide, by decide, by decide, fun point hpoint hcovered => ?_,
      fun other hstart hle hge hfinish _ => Prod.ext (by omega) (by omega)⟩
    obtain ⟨interval, hinterval, -, -, -, huntil⟩ := hcovered
    obtain rfl := mem_singleton.1 hinterval
    exact absurd (hpoint.1.trans_lt huntil) (by decide)
  exact absurd ((h [watched 0 5] 10 20 (by decide) "process" (10, 20)).2 hgap) (by decide)

end CoverageSummary

end OnoSendai.Temporal
