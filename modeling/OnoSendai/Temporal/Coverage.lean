import Mathlib.Data.List.Destutter
import Mathlib.Data.List.Sort
import OnoSendai.Temporal.Event

/-!
# Coverage and the gaps it leaves

A source claims what it could observe of one capability over one interval. A summary composes the
claims of several sources over a window, capability by capability: a capability is complete where
complete claims together reach over the whole window, and that is what a proof of absence rests on.
-/

namespace OnoSendai.Temporal

open List hiding isEmpty_iff

/-! ### Vocabulary -/

/-- What a source was capable of observing over an interval. -/
inductive TemporalCompleteness
  | complete
  | partial'
  | pointSample
  | unknown
  | unavailable
  | permissionDenied
deriving DecidableEq

/-- Whether an interval in this state contributes evidence at all. -/
def TemporalCompleteness.isCovering : TemporalCompleteness → Bool
  | complete | partial' => true
  | _ => false

/-- Why an interval is uncovered. -/
inductive GapReason
  | notRecorded
  | retentionExpired
  | providerUnavailable
  | permissionDenied
  | sourceDisconnected
  | clockUncertain
  | corruptSegment
  | unsupported

/-- What a user can be told about the objects of a place. -/
inductive PermissionState
  | available
  | empty
  | unknown
  | permissionDenied
  | unsupported
  | stale
deriving DecidableEq

/-! ### Windows, claims and gaps -/

/-- A half-open interval, either end open. -/
structure TimeRange where
  from' : Option Int
  until' : Option Int

namespace TimeRange

/-- Everything the ledger holds. -/
def all : TimeRange where
  from' := none
  until' := none

/-- A range with both ends. -/
def between (start finish : Int) : TimeRange where
  from' := some start
  until' := some finish

/-- Whether an instant falls inside. A degenerate range contains its own instant. -/
def contains (range : TimeRange) (instant : Int) : Bool :=
  let afterStart := match range.from' with
    | some start => start ≤ instant
    | none => true
  let beforeEnd := match range.from', range.until' with
    | some start, some finish => if start = finish then instant = finish else instant < finish
    | none, some finish => instant < finish
    | _, none => true
  afterStart && beforeEnd

end TimeRange

/-- The claim of one source about one capability over one interval. -/
structure TemporalCoverage where
  scope : SpatialScope
  capability : String
  from' : Int
  until' : Int
  completeness : TemporalCompleteness
  samplingInterval : Option Int
  source : EvidenceSource
  permission : PermissionState
deriving DecidableEq

namespace TemporalCoverage

/-- Whether an interval covers an instant. -/
def coversInstant (interval : TemporalCoverage) (instant : Int) : Bool :=
  interval.from' ≤ instant && instant ≤ interval.until'

/-- Whether an interval touches a window, where a point sample is its own instant. -/
def overlaps (interval : TemporalCoverage) (start finish : Int) : Bool :=
  if interval.from' = interval.until' then
    start ≤ interval.from' && (interval.from' < finish || start = finish)
  else
    (interval.from' < finish && start < interval.until') ||
      (start = finish && interval.coversInstant start)

end TemporalCoverage

/-- An interval in which a capability was not covered, and why. -/
structure TemporalGap where
  scope : SpatialScope
  from' : Int
  until' : Int
  capability : String
  reason : GapReason
  source : EvidenceSource
  detail : Option String

/-- The words for a gap that a source would have covered. -/
def gapDetail (source : EvidenceSource) (reason : GapReason) : Option String :=
  match decide (source = .recorder), reason with
  | true, .providerUnavailable => some "recorder offline"
  | true, .sourceDisconnected => some "recorder offline"
  | true, .notRecorded => some "recorder not running"
  | _, .retentionExpired => some "beyond retention"
  | false, .sourceDisconnected => some (source.text ++ " disconnected")
  | false, .providerUnavailable => some (source.text ++ " unavailable")
  | _, _ => none

/-! ### Composing one capability -/

section Compose

variable (intervals : List TemporalCoverage) (start finish : Int)

/-- Spans in the order they are merged in. -/
def SpanBefore (a b : Int × Int) : Prop :=
  a.1 < b.1 ∨ (a.1 = b.1 ∧ a.2 ≤ b.2)

instance : DecidableRel SpanBefore :=
  fun _ _ => inferInstanceAs (Decidable (_ ∨ _))

/-- The spans of the selected intervals, clipped to a window. -/
def clipped (select : TemporalCompleteness → Bool) : List (Int × Int) :=
  ((intervals.filter fun interval => select interval.completeness).map fun interval =>
      (max interval.from' start, min interval.until' finish)).filter fun span =>
    span.1 < span.2 || (start = finish && span.1 = span.2)

/-- Adds a span to a union whose last span stands first. -/
def joinSpan (union : List (Int × Int)) (span : Int × Int) :
    List (Int × Int) :=
  match union with
  | last :: rest =>
    if span.1 ≤ last.2 then (last.1, max last.2 span.2) :: rest else span :: union
  | [] => [span]

/-- The union of the selected intervals, clipped to a window. -/
def merged (select : TemporalCompleteness → Bool) : List (Int × Int) :=
  (((clipped intervals start finish select).insertionSort SpanBefore).foldl joinSpan []).reverse

/-- The parts of a window from a cursor on that no span reaches. -/
def holesFrom : Int → List (Int × Int) → List (Int × Int)
  | cursor, [] => if cursor < finish then [(cursor, finish)] else []
  | cursor, (from', until') :: union =>
    (if cursor < from' then [(cursor, from')] else []) ++ holesFrom (max cursor until') union

/-- The parts of a window that no span of a union reaches. -/
def holesIn (union : List (Int × Int)) : List (Int × Int) :=
  if start = finish then if union.isEmpty then [(start, finish)] else []
  else holesFrom finish start union

/-- Why an uncovered span is uncovered, and whose gap it is. -/
def explain : GapReason × EvidenceSource :=
  match intervals.find? fun interval => interval.overlaps start finish &&
      (interval.completeness = .permissionDenied || interval.completeness = .unavailable) with
  | some interval =>
    (if interval.completeness = .permissionDenied then .permissionDenied else .providerUnavailable,
      interval.source)
  | none => (.notRecorded, (intervals.head?.map (·.source)).getD .session)

/-- What a capability composes to when no source covered any of the window. -/
def weakestState : TemporalCompleteness :=
  if intervals.any (·.completeness = .pointSample) then .pointSample
  else if intervals.any (·.completeness = .permissionDenied) then .permissionDenied
  else if intervals.any (·.completeness = .unavailable) then .unavailable
  else .unknown

/-- The scope a gap belongs to when there is no interval to take it from. -/
def fallbackScope : SpatialScope :=
  .host "localhost" (.new "localhost" "?")

/-- Composes the intervals of one capability over a window. -/
def composeOne (capability : String) : TemporalCompleteness × List TemporalGap :=
  let covering := merged intervals start finish (·.isCovering)
  let complete := merged intervals start finish (· = .complete)
  let state :=
    if (holesIn start finish complete).isEmpty && !complete.isEmpty then .complete
    else if !covering.isEmpty then .partial'
    else weakestState intervals
  let gaps := (holesIn start finish covering).map fun (gapFrom, gapUntil) =>
    let (reason, source) := explain intervals gapFrom gapUntil
    { scope := (intervals.head?.map (·.scope)).getD fallbackScope
      from' := gapFrom
      until' := gapUntil
      capability
      reason
      source
      detail := gapDetail source reason }
  (state, gaps)

end Compose

/-! ### Summaries -/

/-- The composed coverage of a window. -/
structure CoverageSummary where
  window : TimeRange
  capabilities : List (String × TemporalCompleteness)
  gaps : List TemporalGap
  sources : List EvidenceSource

/-- Whether a text does not come after another. -/
def TextBefore (a b : String) : Prop :=
  a ≤ b

instance : DecidableRel TextBefore :=
  fun a b => inferInstanceAs (Decidable (a ≤ b))

/-- The texts of a list in order, each once. -/
def distinctTexts (texts : List String) : List String :=
  (texts.insertionSort TextBefore).destutter (· ≠ ·)

/-- The sources of a list in order, each once. -/
def distinctSources (sources : List EvidenceSource) : List EvidenceSource :=
  (sources.insertionSort fun a b => TextBefore a.text b.text).destutter (· ≠ ·)

/-- The window a composition answers over: where an end is open, the extent of the intervals. -/
def effectiveWindow (intervals : List TemporalCoverage) (window : TimeRange) :
    Option (Int × Int) := do
  let start ← window.from' <|> (intervals.map (·.from')).min?
  let finish ← window.until' <|> (intervals.map (·.until')).max?
  if start ≤ finish then some (start, finish) else none

namespace CoverageSummary

/-- The intervals of a capability that touch a window. -/
def relevant (intervals : List TemporalCoverage) (start finish : Int) (capability : String) :
    List TemporalCoverage :=
  intervals.filter fun interval =>
    interval.capability = capability && interval.overlaps start finish

/-- Composes intervals over a window, per capability. -/
def compose (intervals : List TemporalCoverage) (window : TimeRange) : CoverageSummary :=
  match effectiveWindow intervals window with
  | none => { window, capabilities := [], gaps := [], sources := [] }
  | some (start, finish) =>
    let touching := intervals.filter (·.overlaps start finish)
    let composed := (distinctTexts (touching.map (·.capability))).map fun capability =>
      (capability, composeOne (relevant intervals start finish capability) start finish capability)
    { window := .between start finish
      capabilities := composed.map fun (capability, state, _) => (capability, state)
      gaps := composed.flatMap fun (_, _, gaps) => gaps
      sources := distinctSources (touching.map (·.source)) }

/-- What one capability composed to, or none where nothing covered it. -/
def completenessOf (summary : CoverageSummary) (capability : String) :
    Option TemporalCompleteness :=
  (summary.capabilities.find? (·.1 = capability)).map (·.2)

/-- Whether the summary supports the claim that something did not exist. -/
def canProveAbsence (summary : CoverageSummary) (capability : String) : Bool :=
  summary.completenessOf capability = some .complete &&
    !summary.gaps.any (·.capability = capability)

end CoverageSummary

/-! ### What a complete composition covers -/

section Covered

variable {intervals : List TemporalCoverage} {start finish : Int}

theorem mem_clipped {select : TemporalCompleteness → Bool} {span : Int × Int}
    (h : span ∈ clipped intervals start finish select) :
    ∃ interval ∈ intervals, select interval.completeness = true ∧ interval.from' ≤ span.1 ∧
      span.2 ≤ interval.until' ∧ start ≤ span.1 ∧ span.1 ≤ span.2 ∧ span.2 ≤ finish := by
  obtain ⟨hmem, hproper⟩ := mem_filter.1 h
  obtain ⟨interval, hinterval, rfl⟩ := mem_map.1 hmem
  obtain ⟨hinterval, hselect⟩ := mem_filter.1 hinterval
  simp only [Bool.or_eq_true, Bool.and_eq_true, decide_eq_true_eq] at hproper
  refine ⟨interval, hinterval, hselect, ?_, ?_, ?_, ?_, ?_⟩ <;> dsimp only at hproper ⊢ <;> omega

variable {spans union : List (Int × Int)}

/-- What a union covers is covered by the spans it was made of. -/
theorem mem_foldl_joinSpan {span : Int × Int} (h : span ∈ spans.foldl joinSpan union)
    (covered : Int → Prop)
    (hspans : ∀ span ∈ spans, start ≤ span.2 ∧ ∀ t, span.1 ≤ t → t ≤ span.2 → covered t)
    (hunion : ∀ span ∈ union, start ≤ span.2 ∧ ∀ t, span.1 ≤ t → t ≤ span.2 → covered t) :
    start ≤ span.2 ∧ ∀ t, span.1 ≤ t → t ≤ span.2 → covered t := by
  induction spans generalizing union with
  | nil => exact hunion span h
  | cons first spans ih =>
    rw [forall_mem_cons] at hspans
    refine ih h hspans.2 fun other hother => ?_
    unfold joinSpan at hother
    split at hother
    · rename_i last rest
      rw [forall_mem_cons] at hunion
      split_ifs at hother with htouch
      · rcases mem_cons.1 hother with rfl | hrest
        · refine ⟨by have := hunion.1.1; simp only; omega, fun t hfrom huntil => ?_⟩
          -- what the last span does not reach, the one joined to it does
          by_cases hlast : t ≤ last.2
          · exact hunion.1.2 t hfrom hlast
          · simp only at huntil
            exact hspans.1.2 t (by omega) (by omega)
        · exact hunion.2 other hrest
      · rcases mem_cons.1 hother with rfl | hrest
        · exact hspans.1
        · rcases mem_cons.1 hrest with rfl | hrest
          · exact hunion.1
          · exact hunion.2 other hrest
    · rw [mem_singleton.1 hother]
      exact hspans.1

/-- Where there are no holes after a cursor, every later instant of the window is in the union. -/
theorem exists_span_of_holesFrom_eq_nil {cursor t : Int}
    {union : List (Int × Int)} (h : holesFrom finish cursor union = [])
    (hcursor : cursor ≤ t) (hfinish : t ≤ finish) :
    t = cursor ∨ ∃ span ∈ union, span.1 ≤ t ∧ t ≤ span.2 := by
  induction union generalizing cursor with
  | nil =>
    unfold holesFrom at h
    split_ifs at h with hlt
    exact .inl (by omega)
  | cons span union ih =>
    unfold holesFrom at h
    obtain ⟨hbefore, hafter⟩ := append_eq_nil_iff.1 h
    have hstart : span.1 ≤ cursor := by
      by_contra hnot
      rw [if_pos (by omega)] at hbefore
      cases hbefore
    by_cases hspan : t ≤ span.2
    · exact .inr ⟨span, mem_cons_self, by omega, hspan⟩
    · rcases ih hafter (by omega) with heq | ⟨other, hmem, hcovers⟩
      · exact .inl (by omega)
      · exact .inr ⟨other, mem_cons_of_mem _ hmem, hcovers⟩

variable {t : Int}

/-- Where a union has no holes in a window, every instant of the window is in it. -/
theorem exists_span_of_holesIn_eq_nil {union : List (Int × Int)}
    (h : holesIn start finish union = []) (hne : start ≠ finish)
    (hunion : ∀ span ∈ union, start ≤ span.2) (hstart : start ≤ t) (hfinish : t ≤ finish) :
    ∃ span ∈ union, span.1 ≤ t ∧ t ≤ span.2 := by
  rw [holesIn, if_neg hne] at h
  rcases exists_span_of_holesFrom_eq_nil h hstart hfinish with rfl | hspan
  · cases union with
    | nil =>
      unfold holesFrom at h
      rw [if_pos (by omega)] at h
      cases h
    | cons span union =>
      unfold holesFrom at h
      obtain ⟨hbefore, -⟩ := append_eq_nil_iff.1 h
      refine ⟨span, mem_cons_self, ?_, hunion span mem_cons_self⟩
      by_contra hnot
      rw [if_pos (by omega)] at hbefore
      cases hbefore
  · exact hspan

/-- A capability that composes to complete has a complete interval at every instant. -/
theorem exists_complete_of_composeOne {capability : String}
    (h : (composeOne intervals start finish capability).1 = .complete) (hstart : start ≤ t)
    (hfinish : t ≤ finish) :
    ∃ interval ∈ intervals, interval.completeness = .complete ∧ interval.from' ≤ t ∧
      t ≤ interval.until' := by
  unfold composeOne at h
  dsimp only at h
  split_ifs at h with hcomplete hcovering
  · simp only [Bool.and_eq_true, List.isEmpty_iff, Bool.not_eq_true', isEmpty_eq_false_iff]
      at hcomplete
    obtain ⟨hholes, hne⟩ := hcomplete
    -- every span of the union is made of complete intervals and ends in the window
    have hunion : ∀ span ∈ merged intervals start finish (· = .complete),
        start ≤ span.2 ∧ ∀ t, span.1 ≤ t → t ≤ span.2 →
          ∃ interval ∈ intervals, interval.completeness = .complete ∧ interval.from' ≤ t ∧
            t ≤ interval.until' := by
      intro span hspan
      refine mem_foldl_joinSpan (mem_reverse.1 hspan) _ (fun other hother => ?_) (by simp)
      obtain ⟨interval, hmem, hselect, hfrom, huntil, hclip, hproper, -⟩ :=
        mem_clipped ((mem_insertionSort _).1 hother)
      exact ⟨by omega, fun t hle hge =>
        ⟨interval, hmem, by simpa using hselect, by omega, by omega⟩⟩
    by_cases hwindow : start = finish
    · obtain ⟨span, hspan⟩ := exists_mem_of_ne_nil
        (clipped intervals start finish (· = .complete)) fun hnil => hne (by
          simp [merged, hnil])
      obtain ⟨interval, hmem, hselect, hfrom, huntil, hclip, hproper, hend⟩ := mem_clipped hspan
      exact ⟨interval, hmem, by simpa using hselect, by omega, by omega⟩
    · obtain ⟨span, hmem, hfrom, huntil⟩ := exists_span_of_holesIn_eq_nil hholes hwindow
        (fun span hspan => (hunion span hspan).1) hstart hfinish
      exact (hunion span hmem).2 t hfrom huntil
  · exfalso
    unfold weakestState at h
    split_ifs at h

namespace CoverageSummary

/-- **A capability that composes to complete** has, at every instant of the window the composition
answers over, an interval that was complete. -/
theorem exists_complete_of_completenessOf {window : TimeRange} {capability : String}
    (h : (compose intervals window).completenessOf capability = some .complete)
    (hwindow : effectiveWindow intervals window = some (start, finish)) (hstart : start ≤ t)
    (hfinish : t ≤ finish) :
    ∃ interval ∈ intervals, interval.capability = capability ∧
      interval.completeness = .complete ∧ interval.from' ≤ t ∧ t ≤ interval.until' := by
  unfold compose at h
  rw [hwindow] at h
  obtain ⟨⟨name, state⟩, hfind, hstate⟩ := Option.map_eq_some_iff.1 h
  have hname : name = capability := by simpa using find?_some hfind
  obtain ⟨⟨other, composed⟩, hcomposed, hpair⟩ := mem_map.1 (mem_of_find?_eq_some hfind)
  obtain ⟨third, -, hthird⟩ := mem_map.1 hcomposed
  obtain ⟨rfl, rfl⟩ := Prod.mk.inj hthird
  obtain ⟨rfl, rfl⟩ := Prod.mk.inj hpair
  subst hname
  have hcomposed : (composeOne (relevant intervals start finish third) start finish third).1 =
      .complete := hstate
  obtain ⟨interval, hmem, hcomplete⟩ :=
    exists_complete_of_composeOne hcomposed hstart hfinish
  obtain ⟨hmem, hrelevant⟩ := mem_filter.1 hmem
  simp only [Bool.and_eq_true, decide_eq_true_eq] at hrelevant
  exact ⟨interval, hmem, hrelevant.1, hcomplete⟩

end CoverageSummary

/-! ### What composes to complete at one instant -/

theorem foldl_joinSpan_ne_nil (h : spans ≠ [] ∨ union ≠ []) : spans.foldl joinSpan union ≠ [] := by
  induction spans generalizing union with
  | nil => exact h.resolve_left (absurd rfl)
  | cons span spans ih =>
    refine ih (.inr ?_)
    unfold joinSpan
    split
    · split_ifs <;> exact cons_ne_nil _ _
    · exact cons_ne_nil _ _

variable {interval : TemporalCoverage}

/-- A complete interval over an instant makes its capability complete at the instant. -/
theorem composeOne_of_complete (capability : String) (hmem : interval ∈ intervals)
    (hcomplete : interval.completeness = .complete) (hfrom : interval.from' ≤ t)
    (huntil : t ≤ interval.until') : (composeOne intervals t t capability).1 = .complete := by
  have hclipped : clipped intervals t t (· = .complete) ≠ [] := by
    refine ne_nil_of_mem (a := (t, t)) (mem_filter.2 ⟨mem_map.2 ⟨interval, ?_, ?_⟩, ?_⟩)
    · exact mem_filter.2 ⟨hmem, by simpa using hcomplete⟩
    · rw [Prod.mk.injEq]
      omega
    · simp
  have hmerged : merged intervals t t (· = .complete) ≠ [] := by
    rw [merged, ne_eq, reverse_eq_nil_iff]
    refine foldl_joinSpan_ne_nil (.inl fun hnil => hclipped ?_)
    exact eq_nil_of_length_eq_zero (by rw [← length_insertionSort SpanBefore, hnil]; rfl)
  unfold composeOne
  dsimp only
  rw [if_pos]
  simp [holesIn, hmerged]

theorem mem_distinctTexts {texts : List String} {text : String} :
    text ∈ distinctTexts texts ↔ text ∈ texts := by
  have : Std.Antisymm TextBefore := ⟨fun _ _ hab hba => String.le_antisymm hab hba⟩
  have : Std.Total TextBefore := ⟨fun a b => String.le_total a b⟩
  have : IsTrans String TextBefore := ⟨fun _ _ _ hab hbc => String.le_trans hab hbc⟩
  rw [distinctTexts, (pairwise_insertionSort TextBefore texts).destutter_eq_dedup,
    mem_dedup, mem_insertionSort]

namespace CoverageSummary

/-- **A complete interval over an instant** proves absence over the window that is the instant. -/
theorem completenessOf_of_complete (hmem : interval ∈ intervals)
    (hcomplete : interval.completeness = .complete) (hfrom : interval.from' ≤ t)
    (huntil : t ≤ interval.until') :
    (compose intervals (.between t t)).completenessOf interval.capability = some .complete := by
  have hoverlaps : interval.overlaps t t = true := by
    unfold TemporalCoverage.overlaps TemporalCoverage.coversInstant
    split_ifs with hpoint
    · simp
      omega
    · simp
      omega
  have hwindow : effectiveWindow intervals (.between t t) = some (t, t) := by
    simp [effectiveWindow, TimeRange.between]
  have htext : interval.capability ∈
      distinctTexts ((intervals.filter (·.overlaps t t)).map (·.capability)) :=
    mem_distinctTexts.2 (mem_map.2 ⟨interval, mem_filter.2 ⟨hmem, hoverlaps⟩, rfl⟩)
  have hone : (composeOne (relevant intervals t t interval.capability) t t
      interval.capability).1 = .complete :=
    composeOne_of_complete _ (mem_filter.2 ⟨hmem, by simp [hoverlaps]⟩) hcomplete hfrom huntil
  obtain ⟨text, hfind⟩ := Option.isSome_iff_exists.1
    (find?_isSome (p := fun text => decide (text = interval.capability)).2
      ⟨interval.capability, htext, by simp⟩)
  obtain rfl : text = interval.capability := by simpa using find?_some hfind
  unfold compose completenessOf
  rw [hwindow]
  dsimp only
  rw [map_map, find?_map]
  simp only [Function.comp_def, hfind, Option.map_some, hone]

end CoverageSummary

end Covered

end OnoSendai.Temporal
