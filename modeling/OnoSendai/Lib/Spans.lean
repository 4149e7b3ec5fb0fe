import Mathlib.Data.List.Sort

/-!
# Spans and gaps

A span is a pair of points of a linear order and holds the points from its first to before its
second. A list of spans is apart when each ends before the next begins; its gaps in a window, the
longest spans of the window it holds no point of, are then told one span after another.

## Main definitions

* `Holds`, `Covers` — the points of a span and of a list of spans;
* `Apart` — spans in order, none touching the next;
* `IsGap` — a longest span of a window that holds no covered point.

## Main results

* `isGap_nil_iff`, `isGap_cons_iff` — the gaps of spans that are apart, one span after another;
* `exists_isGap` — what is not covered lies in a gap.
-/

namespace Spans

variable {α : Type*} [LinearOrder α]

/-- The points of a span: from its first to before its second. -/
def Holds (span : α × α) (point : α) : Prop :=
  span.1 ≤ point ∧ point < span.2

/-- The points that some span holds. -/
def Covers (spans : List (α × α)) (point : α) : Prop :=
  ∃ span ∈ spans, Holds span point

/-- Spans in order, each holding a point and ending before the next begins. -/
def Apart (spans : List (α × α)) : Prop :=
  (∀ span ∈ spans, span.1 < span.2) ∧ spans.Pairwise fun one two => one.2 < two.1

/-- A longest span of a window that holds no point of a set. -/
structure IsGap (covered : α → Prop) (start finish : α) (span : α × α) : Prop where
  start_le : start ≤ span.1
  proper : span.1 < span.2
  le_finish : span.2 ≤ finish
  free : ∀ point, Holds span point → ¬ covered point
  longest : ∀ other : α × α, start ≤ other.1 → other.1 ≤ span.1 → span.2 ≤ other.2 →
    other.2 ≤ finish → (∀ point, Holds other point → ¬ covered point) → other = span

variable {spans : List (α × α)} {span gap : α × α} {cursor start finish point : α}

theorem apart_cons_iff : Apart (span :: spans) ↔
    span.1 < span.2 ∧ (∀ next ∈ spans, span.2 < next.1) ∧ Apart spans := by
  unfold Apart
  rw [List.forall_mem_cons, List.pairwise_cons]
  tauto

theorem covers_cons_iff : Covers (span :: spans) point ↔ Holds span point ∨ Covers spans point := by
  simp [Covers]

theorem IsGap.congr {covered covered' : α → Prop}
    (h : ∀ point, start ≤ point → point < finish → (covered point ↔ covered' point)) :
    IsGap covered start finish gap ↔ IsGap covered' start finish gap := by
  have hstep : ∀ {covered covered' : α → Prop},
      (∀ point, start ≤ point → point < finish → (covered point ↔ covered' point)) →
      IsGap covered start finish gap → IsGap covered' start finish gap := by
    intro covered covered' h hgap
    refine ⟨hgap.start_le, hgap.proper, hgap.le_finish, fun point hpoint hcovered => ?_,
      fun other hstart hle hge hfinish hfree => ?_⟩
    · refine hgap.free point hpoint ((h point (hgap.start_le.trans hpoint.1) ?_).2 hcovered)
      exact hpoint.2.trans_le hgap.le_finish
    · refine hgap.longest other hstart hle hge hfinish fun point hpoint hcovered => ?_
      exact hfree point hpoint
        ((h point (hstart.trans hpoint.1) (hpoint.2.trans_le hfinish)).1 hcovered)
  exact ⟨hstep h, hstep fun point hstart hfinish => (h point hstart hfinish).symm⟩

/-- Without spans the whole window is the gap. -/
theorem isGap_nil_iff :
    IsGap (Covers []) start finish gap ↔ start < finish ∧ gap = (start, finish) := by
  have hfree : ∀ other point : α, ¬ Covers ([] : List (α × α)) point := by simp [Covers]
  constructor
  · intro hgap
    have hlt := (hgap.start_le.trans_lt hgap.proper).trans_le hgap.le_finish
    exact ⟨hlt, (hgap.longest (start, finish) le_rfl hgap.start_le hgap.le_finish le_rfl
      fun point _ => hfree point point).symm⟩
  · rintro ⟨hlt, rfl⟩
    refine ⟨le_rfl, hlt, le_rfl, fun point _ => hfree point point, ?_⟩
    rintro ⟨one, two⟩ hstart hle hge hfinish -
    exact Prod.ext (le_antisymm hle hstart) (le_antisymm hfinish hge)

/-- **The gaps of spans that are apart**, from a cursor on that the first span does not precede:
the part before the first span, and the gaps of the others behind it. -/
theorem isGap_cons_iff (hapart : Apart (span :: spans)) (hcursor : cursor ≤ span.1)
    (hfinish : span.2 ≤ finish) :
    IsGap (Covers (span :: spans)) cursor finish gap ↔
      cursor < span.1 ∧ gap = (cursor, span.1) ∨ IsGap (Covers spans) span.2 finish gap := by
  obtain ⟨hproper, hlater, hrest⟩ := apart_cons_iff.1 hapart
  have hbefore : ∀ point < span.1, ¬ Covers (span :: spans) point := by
    intro point hlt hcovers
    rcases covers_cons_iff.1 hcovers with hholds | ⟨next, hnext, hholds⟩
    · exact absurd hholds.1 (not_le.2 hlt)
    · exact absurd (((hproper.trans (hlater next hnext)).trans_le hholds.1).trans hlt) (lt_irrefl _)
  constructor
  · intro hgap
    -- The span itself is covered, so a gap lies before it or behind it.
    rcases lt_or_ge gap.1 span.1 with hlt | hge
    · have hend : gap.2 ≤ span.1 := by
        by_contra hover
        exact hgap.free span.1 ⟨hlt.le, not_le.1 hover⟩
          (covers_cons_iff.2 (.inl ⟨le_rfl, hproper⟩))
      refine .inl ⟨hgap.start_le.trans_lt hlt, ?_⟩
      exact (hgap.longest (cursor, span.1) le_rfl hgap.start_le hend (hproper.le.trans hfinish)
        fun point hpoint => hbefore point hpoint.2).symm
    · have hbehind : span.2 ≤ gap.1 := by
        by_contra hinside
        exact hgap.free gap.1 ⟨le_rfl, hgap.proper⟩
          (covers_cons_iff.2 (.inl ⟨hge, not_le.1 hinside⟩))
      refine .inr ⟨hbehind, hgap.proper, hgap.le_finish, fun point hpoint hcovers => ?_,
        fun other hstart hle hge hend hfree => ?_⟩
      · exact hgap.free point hpoint (covers_cons_iff.2 (.inr hcovers))
      · refine hgap.longest other ((hcursor.trans hproper.le).trans hstart) hle hge hend
          fun point hpoint hcovers => ?_
        rcases covers_cons_iff.1 hcovers with hholds | hcovers
        · exact absurd hholds.2 (not_lt.2 (hstart.trans hpoint.1))
        · exact hfree point hpoint hcovers
  · rintro (⟨hlt, rfl⟩ | hgap)
    · refine ⟨le_rfl, hlt, hproper.le.trans hfinish, fun point hpoint => hbefore point hpoint.2, ?_⟩
      rintro ⟨one, two⟩ hstart hle hge hend hfree
      refine Prod.ext (le_antisymm hle hstart) (le_antisymm ?_ hge)
      by_contra hover
      exact hfree span.1 ⟨hle.trans hlt.le, not_le.1 hover⟩
        (covers_cons_iff.2 (.inl ⟨le_rfl, hproper⟩))
    · refine ⟨(hcursor.trans hproper.le).trans hgap.start_le, hgap.proper, hgap.le_finish,
        fun point hpoint hcovers => ?_, fun other hstart hle hge hend hfree => ?_⟩
      · rcases covers_cons_iff.1 hcovers with hholds | hcovers
        · exact absurd hholds.2 (not_lt.2 (hgap.start_le.trans hpoint.1))
        · exact hgap.free point hpoint hcovers
      · have hbehind : span.2 ≤ other.1 := by
          by_contra hover
          have hover := not_le.1 hover
          have hbeyond : span.2 < other.2 :=
            (hgap.start_le.trans_lt hgap.proper).trans_le hge
          refine hfree (max other.1 span.1) ⟨le_max_left _ _, ?_⟩ (covers_cons_iff.2 (.inl
            ⟨le_max_right _ _, max_lt hover hproper⟩))
          exact max_lt (hover.trans hbeyond) (hproper.trans hbeyond)
        exact hgap.longest other hbehind hle hge hend fun point hpoint hcovers =>
          hfree point hpoint (covers_cons_iff.2 (.inr hcovers))

/-- Every point of a window that spans do not cover is in one of their gaps. -/
theorem exists_isGap (hapart : Apart spans) (hcursor : ∀ span ∈ spans, cursor ≤ span.1)
    (hfinish : ∀ span ∈ spans, span.2 ≤ finish) (hle : cursor ≤ point) (hlt : point < finish)
    (hfree : ¬ Covers spans point) : ∃ gap, IsGap (Covers spans) cursor finish gap := by
  induction spans generalizing cursor with
  | nil => exact ⟨(cursor, finish), isGap_nil_iff.2 ⟨hle.trans_lt hlt, rfl⟩⟩
  | cons span spans ih =>
    rw [List.forall_mem_cons] at hcursor hfinish
    obtain ⟨hproper, hlater, hrest⟩ := apart_cons_iff.1 hapart
    rcases lt_or_ge point span.1 with hbefore | hge
    · exact ⟨(cursor, span.1), (isGap_cons_iff hapart hcursor.1 hfinish.1).2
        (.inl ⟨hle.trans_lt hbefore, rfl⟩)⟩
    · have hbehind : span.2 ≤ point := by
        by_contra hinside
        exact hfree (covers_cons_iff.2 (.inl ⟨hge, not_le.1 hinside⟩))
      obtain ⟨gap, hgap⟩ := ih hrest (fun next hnext => (hlater next hnext).le) hfinish.2 hbehind
        fun hcovers => hfree (covers_cons_iff.2 (.inr hcovers))
      exact ⟨gap, (isGap_cons_iff hapart hcursor.1 hfinish.1).2 (.inr hgap)⟩

end Spans
