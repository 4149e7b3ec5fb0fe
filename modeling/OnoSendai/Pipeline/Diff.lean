import OnoSendai.Lib.Buckets
import OnoSendai.Pipeline.Stage
import OnoSendai.Value.SameData

/-!
# Differences from a snapshot

`diff` compares a stream of values with values of an earlier snapshot, by their identities
(`ono_pipeline::transforms::relational`). The snapshot is indexed by what stands in for an identity,
and a later value takes the place of an earlier one. A value of the stream is compared with the one
it finds there, and the values of the snapshot that none has found are removals.
-/

namespace OnoSendai.Pipeline

open Keyed
open List hiding getElem?_eq_some_iff mem_map

/-! ### The stage -/

/-- What has become of an object. -/
inductive ChangeKind
  | changed
  | added
  | removed

/-- A row: what has become of an object, its identity, the new object and the old one. -/
structure DiffRow where
  change : ChangeKind
  key : Value
  left : Option Value
  right : Option Value

/-- A comparison: the values of the snapshot, and the identity of a value. -/
structure Diff where
  previous : List Value
  identity : KeyFn

/-- The snapshot by what stands in for an identity, with the identities that were not read. -/
structure DiffIndex where
  before : List (String × ℕ)
  failures : List ErrorValue

namespace Diff

variable (diff : Diff) (printers : Printers)

/-- Adds the value at a position. -/
def add (index : DiffIndex) (entry : Value × ℕ) : DiffIndex :=
  match diff.identity entry.1 with
  | .ok known =>
    { index with before := upsert (keyRepr printers known) entry.2 (fun _ => entry.2) index.before }
  | .error failure => { index with failures := index.failures ++ [failure] }

/-- The index of the snapshot. -/
def index : DiffIndex :=
  diff.previous.zipIdx.foldl (diff.add printers) ⟨[], []⟩

/-- The position an identity finds. -/
def found (index : DiffIndex) (known : Value) : Option ℕ :=
  index.before.lookup (keyRepr printers known)

variable (powi : ℕ → UInt64)

/-- The row of a value: none where the value it finds holds the same data. -/
def rowOf (index : DiffIndex) (known value : Value) : List DiffRow :=
  match found printers index known with
  | some position =>
    if diff.previous[position]?.any fun old => old.sameData powi value then []
    else [⟨.changed, known, some value, diff.previous[position]?⟩]
  | none => [⟨.added, known, some value, none⟩]

/-- The rows of the values of the snapshot that no value has found. -/
def removals (seen : List ℕ) : List DiffRow :=
  (diff.previous.zipIdx.filter fun entry => entry.2 ∉ seen).map fun entry =>
    ⟨.removed, (diff.identity entry.1).toOption.getD .null, none, some entry.1⟩

/-- Reads the values that are left, where some positions have been found. -/
def probe (index : DiffIndex) (seen : List ℕ) : List Value → List (Event DiffRow)
  | [] => (diff.removals seen).map .row
  | value :: values =>
    match diff.identity value with
    | .error failure => .failure failure :: probe index seen values
    | .ok known =>
      (diff.rowOf printers powi index known value).map .row ++
        probe index (seen ++ (found printers index known).toList) values

/-- What a comparison has to tell of a stream. -/
def events (current : List Value) : List (Event DiffRow) :=
  (diff.index printers).failures.map .failure ++
    diff.probe printers powi (diff.index printers) [] current

variable (estimatedSize : Value → ℕ)

/-- What a comparison has to tell of a stream, where the budget admits the snapshot. -/
def run (limits : MaterializationLimits) (current : List Value) : List (Event DiffRow) :=
  match (limits.budgetFor "diff").chargeAll estimatedSize diff.previous with
  | .error exceeded => [.failure exceeded.intoError]
  | .ok _ => diff.events printers powi current

end Diff

/-! ### The rows -/

/-- Whether the identity of the value at a position is read and rendered so. -/
def RenderedAt (printers : Printers) (identity : KeyFn) (previous : List Value) (text : String)
    (position : ℕ) : Prop :=
  ∃ old known, previous[position]? = some old ∧ identity old = .ok known ∧
    keyRepr printers known = text

/-- Whether a position is the last one whose identity is rendered so. -/
def LastRendered (printers : Printers) (identity : KeyFn) (previous : List Value) (text : String)
    (position : ℕ) : Prop :=
  RenderedAt printers identity previous text position ∧
    ∀ later, position < later → ¬RenderedAt printers identity previous text later

variable {previous : List Value}

section Rows

variable {diff : Diff} {printers : Printers} {powi : ℕ → UInt64} {estimatedSize : Value → ℕ}
  {index : DiffIndex} {seen : List ℕ} {values current : List Value} {position : ℕ} {text : String}

theorem diff_rows_probe :
    rows (diff.probe printers powi index seen values) =
      ((readable diff.identity values).flatMap fun entry =>
        diff.rowOf printers powi index entry.1 entry.2) ++
      diff.removals (seen ++ (readable diff.identity values).flatMap fun entry =>
        (Diff.found printers index entry.1).toList) := by
  induction values generalizing seen with
  | nil =>
    have hrows := rows_map_row (diff.removals seen) []
    rw [append_nil] at hrows
    rw [Diff.probe, hrows]
    simp [readable, rows]
  | cons value values ih =>
    rw [Diff.probe]
    cases hkey : diff.identity value with
    | error failure =>
      rw [readable_cons_error hkey, ← ih]
      rfl
    | ok known =>
      rw [readable_cons_ok hkey, flatMap_cons, flatMap_cons, rows_map_row, ih,
        append_assoc, append_assoc]

theorem renderedAt_concat {value : Value} :
    RenderedAt printers diff.identity (previous ++ [value]) text position ↔
      RenderedAt printers diff.identity previous text position ∨
        position = previous.length ∧
          ∃ known, diff.identity value = .ok known ∧ keyRepr printers known = text := by
  rw [RenderedAt, RenderedAt, getElem?_append]
  by_cases hlt : position < previous.length
  · rw [if_pos hlt]
    exact (or_iff_left fun h => absurd h.1 hlt.ne).symm
  · rw [if_neg hlt, getElem?_eq_none (not_lt.1 hlt), getElem?_singleton]
    by_cases heq : position = previous.length
    · simp [heq]
    · have hpos : position - previous.length ≠ 0 := by omega
      simp [heq, hpos]

theorem RenderedAt.lt (h : RenderedAt printers diff.identity previous text position) :
    position < previous.length :=
  by
  obtain ⟨old, known, hold, -⟩ := h
  exact (List.getElem?_eq_some_iff.1 hold).1

theorem lookup_add {start : DiffIndex} {value known : Value} (h : diff.identity value = .ok known) :
    (diff.add printers start (value, position)).before.lookup text =
      if text = keyRepr printers known then some position else start.before.lookup text := by
  rw [Diff.add]
  dsimp only
  rw [h]
  dsimp only
  rw [lookup_upsert]
  split_ifs
  · cases start.before.lookup (keyRepr printers known) <;> rfl
  · rfl

theorem lookup_add_failed {start : DiffIndex} {value : Value} {failure : ErrorValue}
    (h : diff.identity value = .error failure) :
    (diff.add printers start (value, position)).before = start.before := by
  rw [Diff.add]
  dsimp only
  rw [h]

/-- The index of values knows the last position of every rendering. -/
theorem lookup_foldl_add (previous : List Value) :
    (previous.zipIdx.foldl (diff.add printers) ⟨[], []⟩).before.lookup text = some position ↔
      LastRendered printers diff.identity previous text position := by
  induction previous using reverseRecOn generalizing position with
  | nil => simp [LastRendered, RenderedAt]
  | append_singleton previous value ih =>
    rw [zipIdx_append, foldl_append, zipIdx_singleton, foldl_cons,
      foldl_nil, LastRendered]
    simp only [renderedAt_concat]
    cases hkey : diff.identity value with
    | error failure =>
      rw [lookup_add_failed hkey, ih, LastRendered]
      simp
    | ok known =>
      rw [lookup_add hkey, Nat.zero_add]
      by_cases htext : text = keyRepr printers known
      · rw [if_pos htext, Option.some_inj]
        constructor
        · rintro rfl
          refine ⟨.inr ⟨rfl, known, rfl, htext.symm⟩, fun later hlater => ?_⟩
          rintro (hrendered | ⟨heq, -⟩)
          · exact absurd hrendered.lt (by omega)
          · omega
        · rintro ⟨hrendered | ⟨heq, -⟩, hlast⟩
          · exact absurd (.inr ⟨rfl, known, rfl, htext.symm⟩) (hlast _ hrendered.lt)
          · exact heq.symm
      · have hnot : ¬∃ other, (Except.ok known : Except ErrorValue Value) = .ok other ∧
            keyRepr printers other = text := by
          rintro ⟨other, hother, hrepr⟩
          cases hother
          exact htext hrepr.symm
        rw [if_neg htext, ih, LastRendered]
        simp only [hnot, and_false, or_false]

/-- **What an identity finds.** It finds the last position whose identity is rendered as it is. -/
theorem found_eq_some_iff {known : Value} :
    Diff.found printers (diff.index printers) known = some position ↔
      LastRendered printers diff.identity diff.previous (keyRepr printers known) position :=
  lookup_foldl_add diff.previous

theorem exists_lastRendered (h : RenderedAt printers diff.identity previous text position) :
    ∃ last, LastRendered printers diff.identity previous text last := by
  classical
  refine ⟨Nat.findGreatest (RenderedAt printers diff.identity previous text) previous.length,
    Nat.findGreatest_spec h.lt.le h, fun later hlt hlater => ?_⟩
  exact absurd (Nat.le_findGreatest hlater.lt.le hlater) (not_le.2 hlt)

theorem found_eq_none_iff {known : Value} :
    Diff.found printers (diff.index printers) known = none ↔
      ∀ position, ¬RenderedAt printers diff.identity diff.previous (keyRepr printers known)
        position := by
  constructor
  · intro hnone position hrendered
    obtain ⟨last, hlast⟩ := exists_lastRendered hrendered
    rw [found_eq_some_iff.2 hlast] at hnone
    cases hnone
  · intro h
    rw [Option.eq_none_iff_forall_ne_some]
    intro position hfound
    exact h position (found_eq_some_iff.1 hfound).1

theorem LastRendered.unique {other : ℕ}
    (h : LastRendered printers diff.identity previous text position)
    (hother : LastRendered printers diff.identity previous text other) : position = other := by
  rcases lt_trichotomy position other with hlt | heq | hgt
  · exact absurd hother.1 (h.2 other hlt)
  · exact heq
  · exact absurd h.1 (hother.2 position hgt)

variable {row : DiffRow}

theorem mem_rowOf_iff {known value : Value} :
    row ∈ diff.rowOf printers powi (diff.index printers) known value ↔
      ((∀ position, ¬RenderedAt printers diff.identity diff.previous (keyRepr printers known)
        position) ∧ row = ⟨.added, known, some value, none⟩) ∨
      ∃ position old,
        LastRendered printers diff.identity diff.previous (keyRepr printers known) position ∧
          diff.previous[position]? = some old ∧ old.sameData powi value = false ∧
            row = ⟨.changed, known, some value, some old⟩ := by
  rw [Diff.rowOf]
  cases hfound : Diff.found printers (diff.index printers) known with
  | none =>
    have hnone := found_eq_none_iff.1 hfound
    dsimp only
    rw [mem_singleton, and_iff_right hnone]
    refine (or_iff_left ?_).symm
    rintro ⟨position, old, hlast, -⟩
    exact hnone position hlast.1
  | some position =>
    have hlast := found_eq_some_iff.1 hfound
    obtain ⟨old, known, hold, -⟩ := id hlast.1
    dsimp only
    rw [hold, Option.any_some, or_iff_right fun h => h.1 position hlast.1]
    constructor
    · intro hrow
      split_ifs at hrow with hsame
      · cases hrow
      · exact ⟨position, old, hlast, hold, Bool.eq_false_iff.2 hsame, mem_singleton.1 hrow⟩
    · rintro ⟨other, found, hother, hvalue, hsame, rfl⟩
      obtain rfl := hlast.unique hother
      obtain rfl := Option.some.inj (hold.symm.trans hvalue)
      rw [if_neg (Bool.eq_false_iff.1 hsame)]
      exact mem_singleton_self _

/-- The rows of a comparison. -/
def Diff.told (diff : Diff) (printers : Printers) (powi : ℕ → UInt64) (current : List Value) :
    List DiffRow :=
  rows (diff.events printers powi current)

theorem mem_removals_iff :
    row ∈ diff.removals seen ↔ ∃ position old, diff.previous[position]? = some old ∧
      position ∉ seen ∧
        row = ⟨.removed, (diff.identity old).toOption.getD .null, none, some old⟩ := by
  rw [Diff.removals, List.mem_map]
  constructor
  · rintro ⟨⟨old, position⟩, hentry, rfl⟩
    rw [mem_filter, mem_zipIdx_iff_getElem?, decide_eq_true_eq] at hentry
    exact ⟨position, old, hentry.1, hentry.2, rfl⟩
  · rintro ⟨position, old, hold, hseen, rfl⟩
    refine ⟨(old, position), mem_filter.2 ⟨mem_zipIdx_iff_getElem?.2 hold, ?_⟩, rfl⟩
    exact decide_eq_true hseen

/-- Whether a value of the stream finds a position. -/
def Diff.Seen (diff : Diff) (printers : Printers) (current : List Value) (position : ℕ) : Prop :=
  ∃ entry ∈ readable diff.identity current,
    LastRendered printers diff.identity diff.previous (keyRepr printers entry.1) position

/-- **The rows of a comparison.** A value whose identity finds none is added; a value is changed
where the one it finds does not hold the same data; what no value finds is removed. -/
theorem mem_told_iff :
    row ∈ diff.told printers powi current ↔
      (∃ entry ∈ readable diff.identity current,
        (∀ position, ¬RenderedAt printers diff.identity diff.previous (keyRepr printers entry.1)
          position) ∧ row = ⟨.added, entry.1, some entry.2, none⟩) ∨
      (∃ entry ∈ readable diff.identity current, ∃ position old,
        LastRendered printers diff.identity diff.previous (keyRepr printers entry.1) position ∧
          diff.previous[position]? = some old ∧ old.sameData powi entry.2 = false ∧
            row = ⟨.changed, entry.1, some entry.2, some old⟩) ∨
      ∃ position old, diff.previous[position]? = some old ∧ ¬diff.Seen printers current position ∧
        row = ⟨.removed, (diff.identity old).toOption.getD .null, none, some old⟩ := by
  have hseen : ∀ position, position ∈ [] ++ (readable diff.identity current).flatMap (fun entry =>
      (Diff.found printers (diff.index printers) entry.1).toList) ↔
        diff.Seen printers current position := by
    intro position
    rw [nil_append, mem_flatMap, Diff.Seen]
    simp only [Option.mem_toList, found_eq_some_iff]
  rw [Diff.told, Diff.events, rows_map_failure, diff_rows_probe, mem_append, mem_flatMap,
    mem_removals_iff, ← or_assoc]
  refine or_congr ?_ ?_
  · rw [← exists_or]
    refine exists_congr fun entry => ?_
    rw [← and_or_left]
    exact and_congr_right fun _ => mem_rowOf_iff
  · simp only [hseen]

variable {limits : MaterializationLimits}

theorem told_run :
    rows (diff.run printers powi estimatedSize limits current) =
      if ((limits.budgetFor "diff").chargeAll estimatedSize diff.previous).isOk then
        diff.told printers powi current
      else [] := by
  rw [Diff.run]
  cases (limits.budgetFor "diff").chargeAll estimatedSize diff.previous with
  | error exceeded => rfl
  | ok budget => rfl

end Rows

/-! ### What the rows are to tell -/

/-- What the rows tell of a snapshot and a stream: nothing of the snapshot itself; that an object is
removed only if none of the stream has an identity equal to its own, and that one is added only if
none of the snapshot has; and that one has changed only from one of an equal identity, where none
of an equal identity holds the same data. -/
structure ReportsDifferences (powi : ℕ → UInt64) (identity : KeyFn) (previous current : List Value)
    (told : List DiffRow) : Prop where
  itself : previous = current → told = []
  removed : ∀ row ∈ told, row.change = .removed → ∀ old known, row.right = some old →
    identity old = .ok known → ∀ entry ∈ readable identity current, known.eq powi entry.1 = false
  added : ∀ row ∈ told, row.change = .added → ∀ new known, row.left = some new →
    identity new = .ok known → ∀ entry ∈ readable identity previous, entry.1.eq powi known = false
  changed : ∀ row ∈ told, row.change = .changed → ∃ old known new other,
    row.right = some old ∧ row.left = some new ∧
      (known, old) ∈ readable identity previous ∧ (other, new) ∈ readable identity current ∧
        known.eq powi other = true ∧ ∀ entry ∈ readable identity previous,
          entry.1.eq powi other = true → entry.2.sameData powi new = false

/-- Whether identities are told apart by their renderings as they are by equality, where the
difference shows.

* Of a snapshot compared with itself every identity is read, no two are rendered alike, and every
  value holds the same data as itself.
* A value of the snapshot with an identity equal to one of the stream is the last that is rendered
  as it is, and some value of the stream is rendered so too.
* A value of the stream with an identity equal to one of the snapshot is rendered like one.
* A value of the stream and the last one that is rendered as it is hold the same data, or have
  equal identities, and then none of an equal identity holds the same data. -/
structure Diff.TellsApart (diff : Diff) (printers : Printers) (powi : ℕ → UInt64)
    (current : List Value) : Prop where
  itself : diff.previous = current →
    (∀ old ∈ diff.previous, ∃ known, diff.identity old = .ok known) ∧
      (∀ text position other, RenderedAt printers diff.identity diff.previous text position →
        RenderedAt printers diff.identity diff.previous text other → position = other) ∧
      ∀ old ∈ diff.previous, old.sameData powi old = true
  removed : ∀ position old known, diff.previous[position]? = some old →
    diff.identity old = .ok known → ∀ entry ∈ readable diff.identity current,
      known.eq powi entry.1 = true → diff.Seen printers current position
  added : ∀ entry ∈ readable diff.identity current, ∀ old ∈ readable diff.identity diff.previous,
    old.1.eq powi entry.1 = true → ∃ position,
      RenderedAt printers diff.identity diff.previous (keyRepr printers entry.1) position
  changed : ∀ entry ∈ readable diff.identity current, ∀ position old,
    LastRendered printers diff.identity diff.previous (keyRepr printers entry.1) position →
      diff.previous[position]? = some old → old.sameData powi entry.2 = false →
        (∃ known, diff.identity old = .ok known ∧ known.eq powi entry.1 = true) ∧
          ∀ other ∈ readable diff.identity diff.previous, other.1.eq powi entry.1 = true →
            other.2.sameData powi entry.2 = false

section Differences

variable {diff : Diff} {printers : Printers} {powi : ℕ → UInt64} {current : List Value}

theorem told_removed_iff :
    (∀ row ∈ diff.told printers powi current, row.change = .removed → ∀ old known,
      row.right = some old → diff.identity old = .ok known →
        ∀ entry ∈ readable diff.identity current, known.eq powi entry.1 = false) ↔
      ∀ position old known, diff.previous[position]? = some old →
        diff.identity old = .ok known → ∀ entry ∈ readable diff.identity current,
          known.eq powi entry.1 = true → diff.Seen printers current position := by
  constructor
  · intro h position old known hold hkey entry hentry heq
    by_contra hseen
    have hrow := (@mem_told_iff diff printers powi current _).2
      (.inr (.inr ⟨position, old, hold, hseen, rfl⟩))
    rw [h _ hrow rfl old known rfl hkey entry hentry] at heq
    cases heq
  · intro h row hrow hchange old known hright hkey entry hentry
    rcases mem_told_iff.1 hrow with ⟨_, _, _, rfl⟩ | ⟨_, _, _, _, _, _, _, rfl⟩ |
      ⟨position, found, hfound, hseen, rfl⟩
    · cases hchange
    · cases hchange
    · obtain rfl := Option.some.inj hright
      by_contra heq
      exact hseen (h position _ known hfound hkey entry hentry (Bool.not_eq_false _ ▸ heq))

theorem told_added_iff :
    (∀ row ∈ diff.told printers powi current, row.change = .added → ∀ new known,
      row.left = some new → diff.identity new = .ok known →
        ∀ entry ∈ readable diff.identity diff.previous, entry.1.eq powi known = false) ↔
      ∀ entry ∈ readable diff.identity current, ∀ old ∈ readable diff.identity diff.previous,
        old.1.eq powi entry.1 = true → ∃ position,
          RenderedAt printers diff.identity diff.previous (keyRepr printers entry.1) position := by
  constructor
  · intro h entry hentry old hold heq
    by_contra hnone
    rw [not_exists] at hnone
    have hrow := (@mem_told_iff diff printers powi current _).2 (.inl ⟨entry, hentry, hnone, rfl⟩)
    rw [h _ hrow rfl entry.2 entry.1 rfl (mem_readable.1 hentry).2 old hold] at heq
    cases heq
  · intro h row hrow hchange new known hleft hkey old hold
    rcases mem_told_iff.1 hrow with ⟨entry, hentry, hnone, rfl⟩ | ⟨_, _, _, _, _, _, _, rfl⟩ |
      ⟨_, _, _, _, rfl⟩
    · obtain rfl := Option.some.inj hleft
      obtain rfl := Except.ok.inj ((mem_readable.1 hentry).2.symm.trans hkey)
      by_contra heq
      obtain ⟨position, hposition⟩ := h entry hentry old hold (Bool.not_eq_false _ ▸ heq)
      exact hnone position hposition
    · cases hchange
    · cases hchange

theorem told_changed_iff :
    (∀ row ∈ diff.told printers powi current, row.change = .changed → ∃ old known new other,
      row.right = some old ∧ row.left = some new ∧
        (known, old) ∈ readable diff.identity diff.previous ∧
          (other, new) ∈ readable diff.identity current ∧ known.eq powi other = true ∧
            ∀ entry ∈ readable diff.identity diff.previous, entry.1.eq powi other = true →
              entry.2.sameData powi new = false) ↔
      ∀ entry ∈ readable diff.identity current, ∀ position old,
        LastRendered printers diff.identity diff.previous (keyRepr printers entry.1) position →
          diff.previous[position]? = some old → old.sameData powi entry.2 = false →
            (∃ known, diff.identity old = .ok known ∧ known.eq powi entry.1 = true) ∧
              ∀ other ∈ readable diff.identity diff.previous, other.1.eq powi entry.1 = true →
                other.2.sameData powi entry.2 = false := by
  constructor
  · intro h entry hentry position old hlast hold hdata
    have hrow := (@mem_told_iff diff printers powi current _).2
      (.inr (.inl ⟨entry, hentry, position, old, hlast, hold, hdata, rfl⟩))
    obtain ⟨found, known, new, other, hright, hleft, hfound, hnew, heq, hnone⟩ := h _ hrow rfl
    obtain rfl := Option.some.inj hright
    obtain rfl := Option.some.inj hleft
    obtain rfl := Except.ok.inj ((mem_readable.1 hnew).2.symm.trans (mem_readable.1 hentry).2)
    exact ⟨⟨known, (mem_readable.1 hfound).2, heq⟩, hnone⟩
  · intro h row hrow hchange
    rcases mem_told_iff.1 hrow with ⟨_, _, _, rfl⟩ |
      ⟨entry, hentry, position, old, hlast, hold, hdata, rfl⟩ | ⟨_, _, _, _, rfl⟩
    · cases hchange
    · obtain ⟨⟨known, hkey, heq⟩, hnone⟩ := h entry hentry position old hlast hold hdata
      exact ⟨old, known, entry.2, entry.1, rfl, rfl,
        mem_readable.2 ⟨mem_of_getElem? hold, hkey⟩, hentry, heq, hnone⟩
    · cases hchange

/-- Compared with itself, a snapshot has no row exactly where its identities are read and are
rendered apart, and its values hold the same data as themselves. -/
theorem told_itself_iff :
    diff.told printers powi diff.previous = [] ↔
      (∀ old ∈ diff.previous, ∃ known, diff.identity old = .ok known) ∧
        (∀ text position other, RenderedAt printers diff.identity diff.previous text position →
          RenderedAt printers diff.identity diff.previous text other → position = other) ∧
        ∀ old ∈ diff.previous, old.sameData powi old = true := by
  rw [eq_nil_iff_forall_not_mem]
  constructor
  · intro h
    have hseen : ∀ position old, diff.previous[position]? = some old →
        diff.Seen printers diff.previous position := by
      intro position old hold
      by_contra hseen
      exact h _ (mem_told_iff.2 (.inr (.inr ⟨position, old, hold, hseen, rfl⟩)))
    have hlast : ∀ text position, RenderedAt printers diff.identity diff.previous text position →
        LastRendered printers diff.identity diff.previous text position := by
      rintro text position ⟨old, known, hold, hkey, rfl⟩
      obtain ⟨entry, hentry, hlast⟩ := hseen position old hold
      obtain ⟨found, other, hfound, hother, hrepr⟩ := id hlast.1
      obtain rfl := Option.some.inj (hold.symm.trans hfound)
      obtain rfl := Except.ok.inj (hkey.symm.trans hother)
      rw [hrepr]
      exact hlast
    refine ⟨?_, ?_, ?_⟩
    · intro old hold
      obtain ⟨position, hposition⟩ := mem_iff_getElem?.1 hold
      obtain ⟨entry, hentry, ⟨found, known, hfound, hkey, -⟩, -⟩ := hseen position old hposition
      obtain rfl := Option.some.inj (hposition.symm.trans hfound)
      exact ⟨known, hkey⟩
    · intro text position other hposition hother
      exact (hlast text position hposition).unique (hlast text other hother)
    · intro old hold
      obtain ⟨position, hposition⟩ := mem_iff_getElem?.1 hold
      obtain ⟨entry, hentry, ⟨found, known, hfound, hkey, -⟩, -⟩ := hseen position old hposition
      obtain rfl := Option.some.inj (hposition.symm.trans hfound)
      by_contra hdata
      exact h _ (mem_told_iff.2 (.inr (.inl ⟨(known, old), mem_readable.2 ⟨hold, hkey⟩, position,
        old, hlast _ position ⟨old, known, hposition, hkey, rfl⟩, hposition,
        Bool.eq_false_iff.2 hdata, rfl⟩)))
  · rintro ⟨hread, hapart, hself⟩ row hrow
    rcases mem_told_iff.1 hrow with ⟨entry, hentry, hnone, -⟩ |
      ⟨entry, hentry, position, old, hlast, hold, hdata, -⟩ | ⟨position, old, hold, hseen, -⟩
    · obtain ⟨hmem, hkey⟩ := mem_readable.1 hentry
      obtain ⟨position, hposition⟩ := mem_iff_getElem?.1 hmem
      exact hnone position ⟨entry.2, entry.1, hposition, hkey, rfl⟩
    · obtain ⟨hmem, hkey⟩ := mem_readable.1 hentry
      obtain ⟨other, hother⟩ := mem_iff_getElem?.1 hmem
      obtain rfl := hapart _ position other hlast.1 ⟨entry.2, entry.1, hother, hkey, rfl⟩
      obtain rfl := Option.some.inj (hold.symm.trans hother)
      rw [hself _ hmem] at hdata
      cases hdata
    · have hmem := mem_of_getElem? hold
      obtain ⟨known, hkey⟩ := hread old hmem
      have hrendered : RenderedAt printers diff.identity diff.previous (keyRepr printers known)
          position := ⟨old, known, hold, hkey, rfl⟩
      exact hseen ⟨(known, old), mem_readable.2 ⟨hmem, hkey⟩, hrendered, fun later hlt hlater =>
        hlt.ne (hapart _ position later hrendered hlater)⟩

theorem reportsDifferences_told_iff :
    ReportsDifferences powi diff.identity diff.previous current
        (diff.told printers powi current) ↔ diff.TellsApart printers powi current := by
  have hitself : (diff.previous = current → diff.told printers powi current = []) ↔
      (diff.previous = current →
        (∀ old ∈ diff.previous, ∃ known, diff.identity old = .ok known) ∧
          (∀ text position other, RenderedAt printers diff.identity diff.previous text position →
            RenderedAt printers diff.identity diff.previous text other → position = other) ∧
          ∀ old ∈ diff.previous, old.sameData powi old = true) := by
    refine forall_congr' fun hsame => ?_
    rw [← hsame]
    exact told_itself_iff
  constructor
  · intro h
    exact ⟨hitself.1 h.itself, told_removed_iff.1 h.removed, told_added_iff.1 h.added,
      told_changed_iff.1 h.changed⟩
  · intro h
    exact ⟨hitself.2 h.itself, told_removed_iff.2 h.removed, told_added_iff.2 h.added,
      told_changed_iff.2 h.changed⟩

theorem reportsDifferences_nil {identity : KeyFn} :
    ReportsDifferences powi identity previous current [] where
  itself _ := rfl
  removed _ hrow := absurd hrow not_mem_nil
  added _ hrow := absurd hrow not_mem_nil
  changed _ hrow := absurd hrow not_mem_nil

end Differences

/-- **A comparison tells the differences where identities are told apart.** The rows are what they
are to be exactly where the budget refuses a value of the snapshot, and there is no row, or where
identities are told apart by their renderings as they are by equality. -/
theorem reportsDifferences_iff (diff : Diff) (printers : Printers) (powi : ℕ → UInt64)
    (estimatedSize : Value → ℕ) (limits : MaterializationLimits) (current : List Value) :
    ReportsDifferences powi diff.identity diff.previous current
        (rows (diff.run printers powi estimatedSize limits current)) ↔
      ((limits.budgetFor "diff").Admits estimatedSize diff.previous →
        diff.TellsApart printers powi current) := by
  rw [told_run]
  by_cases hadmits : (limits.budgetFor "diff").Admits estimatedSize diff.previous
  · have hok : ((limits.budgetFor "diff").chargeAll estimatedSize diff.previous).isOk = true :=
      hadmits
    rw [if_pos hok, reportsDifferences_told_iff]
    exact (imp_iff_right hadmits).symm
  · have hrefused :
        ¬((limits.budgetFor "diff").chargeAll estimatedSize diff.previous).isOk = true :=
      hadmits
    rw [if_neg hrefused]
    exact iff_of_true reportsDifferences_nil fun h => absurd h hadmits

/-- **A snapshot that differs from itself.** Of two values of one identity the first is told to
have been removed. -/
theorem not_reportsDifferences_itself :
    ¬∀ (diff : Diff) (printers : Printers) (powi : ℕ → UInt64) (estimatedSize : Value → ℕ)
      (limits : MaterializationLimits) (current : List Value),
      (∀ old ∈ diff.previous, ∃ known, diff.identity old = .ok known) →
      (∀ new ∈ current, ∃ known, diff.identity new = .ok known) →
      ReportsDifferences powi diff.identity diff.previous current
        (rows (diff.run printers powi estimatedSize limits current)) := by
  intro h
  have hadmits : (Budget.chargeAll (fun _ => 32) (MaterializationLimits.budgetFor ⟨2, 64⟩ "diff")
      [.int 1, .int 1]).isOk = true := rfl
  have hreports := h ⟨[.int 1, .int 1], .ok⟩ silent (fun _ => 0) (fun _ => 32) ⟨2, 64⟩
    [.int 1, .int 1] (fun old _ => ⟨old, rfl⟩) (fun new _ => ⟨new, rfl⟩)
  rw [told_run, if_pos hadmits, reportsDifferences_told_iff] at hreports
  have heq := (hreports.itself rfl).2.1 _ 0 1 ⟨.int 1, .int 1, rfl, rfl, rfl⟩
    ⟨.int 1, .int 1, rfl, rfl, rfl⟩
  cases heq

end OnoSendai.Pipeline
