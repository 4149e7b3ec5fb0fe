import OnoSendai.Lib.Buckets
import OnoSendai.Pipeline.Stage

/-!
# Joining by a key

`join` relates a stream of values to values that are at hand (`ono_pipeline::transforms::join`).
The values at hand are put into buckets by what stands in for their keys, and every value of the
stream finds its partners in the bucket of its own key. Null and failed keys have no bucket.
-/

namespace OnoSendai.Pipeline

open Keyed List

/-! ### The stage -/

/-- Which unmatched rows a join keeps. -/
inductive JoinKind
  | inner
  | left
  | right
  | outer
deriving DecidableEq

/-- Whether unmatched values of the stream are kept. -/
def JoinKind.keepsUnmatchedLeft (kind : JoinKind) : Bool :=
  kind = left ∨ kind = outer

/-- Whether unmatched values at hand are kept. -/
def JoinKind.keepsUnmatchedRight (kind : JoinKind) : Bool :=
  kind = right ∨ kind = outer

/-- A row: the key, and a value of either side. -/
structure Row where
  key : Value
  left : Option Value
  right : Option Value

/-- A join: the values at hand, the keys of both sides, and the rows that are kept. -/
structure Join where
  right : List Value
  leftKey : KeyFn
  rightKey : Option KeyFn
  kind : JoinKind

/-- The values at hand by what stands in for their keys, with these keys and the failed ones. -/
structure JoinIndex where
  buckets : List (String × List ℕ)
  rightKeys : List (Option Value)
  failures : List ErrorValue

namespace Join

variable (join : Join)

/-- The key of the values at hand. -/
def keyOfRight : KeyFn :=
  join.rightKey.getD join.leftKey

variable (printers : Printers)

/-- Adds the value at a position. -/
def add (index : JoinIndex) (entry : Value × ℕ) : JoinIndex :=
  match join.keyOfRight entry.1 with
  | .ok known =>
    if known.isNull then { index with rightKeys := index.rightKeys ++ [none] }
    else
      { index with
        buckets := upsert (keyRepr printers known) [entry.2] (· ++ [entry.2]) index.buckets
        rightKeys := index.rightKeys ++ [some known] }
  | .error failure =>
    { index with
      rightKeys := index.rightKeys ++ [none]
      failures := index.failures ++ [failure] }

/-- The index of the values at hand. -/
def index : JoinIndex :=
  join.right.zipIdx.foldl (join.add printers) ⟨[], [], []⟩

/-- The positions in the bucket of a key. -/
def partners (index : JoinIndex) (known : Value) : List ℕ :=
  if known.isNull then [] else (index.buckets.lookup (keyRepr printers known)).getD []

/-- The rows of a value with its partners, or without one. -/
def rowsOf (known value : Value) (partners : List ℕ) : List Row :=
  if partners.isEmpty then
    if join.kind.keepsUnmatchedLeft then [⟨known, some value, none⟩] else []
  else partners.map fun position => ⟨known, some value, join.right[position]?⟩

/-- The rows of the values at hand that have not been matched. -/
def unmatched (index : JoinIndex) (matched : List ℕ) : List Row :=
  if join.kind.keepsUnmatchedRight then
    (join.right.zipIdx.filter fun entry => entry.2 ∉ matched).map fun entry =>
      ⟨(index.rightKeys[entry.2]?.join).getD .null, none, some entry.1⟩
  else []

/-- Reads the values that are left, of which some positions have been matched. -/
def probe (index : JoinIndex) (matched : List ℕ) : List Value → List (Event Row)
  | [] => (join.unmatched index matched).map .row
  | value :: values =>
    match join.leftKey value with
    | .error failure => .failure failure :: probe index matched values
    | .ok known =>
      (join.rowsOf known value (partners printers index known)).map .row ++
        probe index (matched ++ partners printers index known) values

/-- What a join has to tell of a stream. -/
def events (left : List Value) : List (Event Row) :=
  (join.index printers).failures.map .failure ++
    join.probe printers (join.index printers) [] left

variable (estimatedSize : Value → ℕ)

/-- What a join has to tell of a stream, where the budget admits the values at hand. -/
def run (limits : MaterializationLimits) (left : List Value) : List (Event Row) :=
  match (limits.budgetFor "join").chargeAll estimatedSize join.right with
  | .error exceeded => [.failure exceeded.intoError]
  | .ok _ => join.events printers left

end Join

/-! ### The nested loop -/

namespace Join

variable (join : Join) (related : Value → Value → Bool)

/-- Whether the key of a value at hand is read, is not null, and is related to a key. -/
def Meets (known value : Value) : Bool :=
  !known.isNull && match join.keyOfRight value with
    | .ok other => !other.isNull && related known other
    | .error _ => false

/-- The values at hand that a key meets. -/
def met (known : Value) : List Value :=
  join.right.filter (join.Meets related known)

/-- The rows of a value: one for each value at hand that its key meets, or one without. -/
def relationalRows (known value : Value) : List Row :=
  if (join.met related known).isEmpty then
    if join.kind.keepsUnmatchedLeft then [⟨known, some value, none⟩] else []
  else (join.met related known).map fun partner => ⟨known, some value, some partner⟩

/-- Whether a value at hand is met by the key of some value. -/
def IsMet (left : List Value) (value : Value) : Bool :=
  (readable join.leftKey left).any fun entry => join.Meets related entry.1 value

/-- The key of a value at hand, if it is known. -/
def rightKeyOrNull (value : Value) : Value :=
  (join.keyOfRight value).toOption.getD .null

/-- The rows of the nested loop over both sides. -/
def relational (left : List Value) : List Row :=
  ((readable join.leftKey left).flatMap fun entry => join.relationalRows related entry.1 entry.2) ++
    if join.kind.keepsUnmatchedRight then
      (join.right.filter fun value => !join.IsMet related left value).map fun value =>
        ⟨join.rightKeyOrNull value, none, some value⟩
    else []

end Join

variable {known value : Value}

section Rows

variable {join : Join} {printers : Printers} {estimatedSize : Value → ℕ} {values left : List Value}
  {index : JoinIndex} {matched : List ℕ}

theorem rows_probe :
    rows (join.probe printers index matched values) =
      ((readable join.leftKey values).flatMap fun entry =>
        join.rowsOf entry.1 entry.2 (Join.partners printers index entry.1)) ++
      join.unmatched index (matched ++ (readable join.leftKey values).flatMap fun entry =>
        Join.partners printers index entry.1) := by
  induction values generalizing matched with
  | nil =>
    have hrows := rows_map_row (join.unmatched index matched) []
    rw [append_nil] at hrows
    rw [Join.probe, hrows]
    simp [readable, rows]
  | cons value values ih =>
    rw [Join.probe]
    cases hkey : join.leftKey value with
    | error failure =>
      rw [readable_cons_error hkey, ← ih]
      rfl
    | ok known =>
      rw [readable_cons_ok hkey, flatMap_cons, flatMap_cons, rows_map_row, ih,
        append_assoc, append_assoc]

/-- The key of a value at hand that has a bucket. -/
def Join.bucketed (join : Join) (value : Value) : Option Value :=
  (join.keyOfRight value).toOption.filter fun known => !known.isNull

/-- The positions with a bucket, each with what stands in for its key. -/
def Join.positions (join : Join) (printers : Printers) (entries : List (Value × ℕ)) :
    List (String × ℕ) :=
  entries.filterMap fun entry =>
    (join.bucketed entry.1).map fun known => (keyRepr printers known, entry.2)

theorem add_of_bucketed_none {start : JoinIndex} {entry : Value × ℕ}
    (h : join.bucketed entry.1 = none) :
    (join.add printers start entry).buckets = start.buckets ∧
      (join.add printers start entry).rightKeys = start.rightKeys ++ [none] := by
  rw [Join.bucketed] at h
  rw [Join.add]
  cases hkey : join.keyOfRight entry.1 with
  | error failure => exact ⟨rfl, rfl⟩
  | ok known =>
    have hnull : known.isNull = true := by
      rw [hkey] at h
      simpa using Option.filter_eq_none_iff.1 h known rfl
    dsimp only
    rw [if_pos hnull]
    exact ⟨rfl, rfl⟩

theorem add_of_bucketed_some {start : JoinIndex} {entry : Value × ℕ} {known : Value}
    (h : join.bucketed entry.1 = some known) :
    (join.add printers start entry).buckets =
        upsert (keyRepr printers known) [entry.2] (· ++ [entry.2]) start.buckets ∧
      (join.add printers start entry).rightKeys = start.rightKeys ++ [some known] := by
  rw [Join.bucketed, Option.filter_eq_some_iff] at h
  rw [Join.add]
  cases hkey : join.keyOfRight entry.1 with
  | error failure =>
    rw [hkey] at h
    cases h.1
  | ok other =>
    rw [hkey] at h
    obtain rfl := Option.some.inj h.1
    dsimp only
    rw [if_neg (by simpa using h.2)]
    exact ⟨rfl, rfl⟩

theorem foldl_add (entries : List (Value × ℕ)) (start : JoinIndex) :
    (entries.foldl (join.add printers) start).buckets =
        (join.positions printers entries).foldl (fun buckets position =>
          upsert position.1 [position.2] (· ++ [position.2]) buckets) start.buckets ∧
      (entries.foldl (join.add printers) start).rightKeys =
        start.rightKeys ++ entries.map fun entry => join.bucketed entry.1 := by
  induction entries generalizing start with
  | nil => exact ⟨rfl, (append_nil _).symm⟩
  | cons entry entries ih =>
    obtain ⟨hbuckets, hkeys⟩ := ih (join.add printers start entry)
    rw [foldl_cons, hbuckets, hkeys, Join.positions, Join.positions, filterMap_cons,
      map_cons]
    cases hbucketed : join.bucketed entry.1 with
    | none =>
      obtain ⟨hsame, hadded⟩ := @add_of_bucketed_none join printers start entry hbucketed
      rw [hsame, hadded, append_assoc]
      exact ⟨rfl, rfl⟩
    | some known =>
      obtain ⟨hchanged, hadded⟩ := @add_of_bucketed_some join printers start entry known hbucketed
      rw [hchanged, hadded, append_assoc]
      exact ⟨rfl, rfl⟩

/-- The bucket of a key: the positions whose keys it stands in for. -/
theorem partners_index (known : Value) (hknown : known.isNull = false) :
    Join.partners printers (join.index printers) known =
      ((join.positions printers join.right.zipIdx).filter
        (·.1 = keyRepr printers known)).map (·.2) := by
  have hgather : (join.index printers).buckets = gather Prod.fst (fun position => [position.2])
      (fun position held => held ++ [position.2]) (join.positions printers join.right.zipIdx) :=
    (foldl_add join.right.zipIdx ⟨[], [], []⟩).1
  have hlookup := @lookup_gather _ _ _ _ Prod.fst (fun position : String × ℕ => [position.2])
    (fun position held => held ++ [position.2]) (map Prod.snd) (fun _ => rfl)
    (fun _ _ _ => map_append) (join.positions printers join.right.zipIdx)
    (keyRepr printers known)
  rw [Join.partners, if_neg (by rw [hknown]; decide), hgather, hlookup]
  split_ifs with hnil
  · rw [hnil]
    rfl
  · rfl

/-- Whether keys stand in for each other. -/
def standsIn (printers : Printers) (known other : Value) : Bool :=
  keyRepr printers known = keyRepr printers other

theorem meets_eq {related : Value → Value → Bool} (hknown : known.isNull = false) :
    join.Meets related known value = (join.bucketed value).any (related known) := by
  rw [Join.Meets, Join.bucketed, hknown]
  cases join.keyOfRight value with
  | error failure => rfl
  | ok other =>
    cases hnull : other.isNull with
    | false => simp [Except.toOption, hnull]
    | true => simp [Except.toOption, hnull]

theorem map_positions (known : Value) (hknown : known.isNull = false) (right : List Value)
    (entries : List (Value × ℕ)) (hentries : ∀ entry ∈ entries, right[entry.2]? = some entry.1) :
    ((join.positions printers entries).filter (·.1 = keyRepr printers known)).map
        (fun position => (position.2, right[position.2]?)) =
      (entries.filter fun entry => join.Meets (standsIn printers) known entry.1).map
        fun entry => (entry.2, some entry.1) := by
  induction entries with
  | nil => rfl
  | cons entry entries ih =>
    rw [forall_mem_cons] at hentries
    rw [Join.positions, filterMap_cons, filter_cons, meets_eq hknown]
    cases hbucketed : join.bucketed entry.1 with
    | none => exact ih hentries.2
    | some other =>
      rw [Option.map_some, Option.any_some, filter_cons]
      by_cases hrepr : keyRepr printers known = keyRepr printers other
      · have hstands : standsIn printers known other = true := decide_eq_true hrepr
        rw [if_pos (by simpa using hrepr.symm), if_pos hstands, map_cons, map_cons,
          hentries.1]
        exact congrArg _ (ih hentries.2)
      · rw [if_neg (by simpa using Ne.symm hrepr), if_neg (by simpa [standsIn] using hrepr)]
        exact ih hentries.2

/-- The partners of a key: the positions and the values at hand that it meets. -/
theorem map_partners (known : Value) :
    (Join.partners printers (join.index printers) known).map
        (fun position => (position, join.right[position]?)) =
      (join.right.zipIdx.filter fun entry => join.Meets (standsIn printers) known entry.1).map
        fun entry => (entry.2, some entry.1) := by
  cases hknown : known.isNull with
  | true =>
    rw [Join.partners, if_pos hknown, filter_eq_nil_iff.2]
    · rfl
    · intro entry _
      rw [Join.Meets, hknown]
      simp
  | false =>
    rw [partners_index known hknown, map_map,
      ← map_positions known hknown join.right join.right.zipIdx]
    · rfl
    · intro entry hentry
      exact mem_zipIdx_iff_getElem?.1 hentry

theorem rowsOf_partners (known value : Value) :
    join.rowsOf known value (Join.partners printers (join.index printers) known) =
      join.relationalRows (standsIn printers) known value := by
  have hpartners := @map_partners join printers known
  have hmet : (Join.partners printers (join.index printers) known).map (join.right[·]?) =
      (join.met (standsIn printers) known).map some := by
    have hsnd := congrArg (map Prod.snd) hpartners
    rw [map_map, map_map] at hsnd
    refine Eq.trans hsnd ?_
    rw [Join.met]
    conv_rhs => rw [← zipIdx_map_fst 0 join.right, filter_map, map_map]
    rfl
  have hempty : (Join.partners printers (join.index printers) known).isEmpty =
      (join.met (standsIn printers) known).isEmpty := by
    rw [← isEmpty_map (f := (join.right[·]?)), hmet, isEmpty_map]
  rw [Join.rowsOf, Join.relationalRows, hempty]
  split_ifs
  · rfl
  · rfl
  · have hrows := congrArg (map fun partner => (⟨known, some value, partner⟩ : Row)) hmet
    rw [map_map, map_map] at hrows
    exact hrows

/-- A position is among the partners of a key exactly where the key meets the value there. -/
theorem mem_partners_iff {position : ℕ} (hposition : join.right[position]? = some value) :
    position ∈ Join.partners printers (join.index printers) known ↔
      join.Meets (standsIn printers) known value = true := by
  have hfst := congrArg (map Prod.fst) (@map_partners join printers known)
  rw [map_map, map_map] at hfst
  have hpartners : Join.partners printers (join.index printers) known =
      (join.right.zipIdx.filter fun entry =>
        join.Meets (standsIn printers) known entry.1).map Prod.snd :=
    (map_id _).symm.trans hfst
  rw [hpartners, mem_map]
  constructor
  · rintro ⟨entry, hentry, rfl⟩
    rw [mem_filter, mem_zipIdx_iff_getElem?, hposition] at hentry
    rw [Option.some.inj hentry.1]
    exact hentry.2
  · intro hmeets
    exact ⟨(value, position),
      mem_filter.2 ⟨mem_zipIdx_iff_getElem?.2 hposition, hmeets⟩, rfl⟩

theorem rightKey_index {value : Value} {position : ℕ}
    (hposition : join.right[position]? = some value) :
    ((join.index printers).rightKeys[position]?.join).getD .null = join.rightKeyOrNull value := by
  have hkeys : (join.index printers).rightKeys =
      join.right.zipIdx.map fun entry => join.bucketed entry.1 :=
    ((foldl_add join.right.zipIdx ⟨[], [], []⟩).2).trans (nil_append _)
  have hentry : join.right.zipIdx[position]? = some (value, position) := by
    rw [getElem?_zipIdx, hposition]
    simp
  rw [hkeys, getElem?_map, hentry, Option.map_some, Option.join_some, Join.bucketed,
    Join.rightKeyOrNull]
  cases (join.keyOfRight value).toOption with
  | none => rfl
  | some known => cases known <;> rfl

theorem unmatched_eq (left : List Value) :
    join.unmatched (join.index printers) ((readable join.leftKey left).flatMap fun entry =>
        Join.partners printers (join.index printers) entry.1) =
      if join.kind.keepsUnmatchedRight then
        (join.right.filter fun value => !join.IsMet (standsIn printers) left value).map fun value =>
          ⟨join.rightKeyOrNull value, none, some value⟩
      else [] := by
  rw [Join.unmatched]
  split_ifs
  · have hright : ∀ entry ∈ join.right.zipIdx, join.right[entry.2]? = some entry.1 :=
      fun entry hentry => mem_zipIdx_iff_getElem?.1 hentry
    have hkept : join.right.zipIdx.filter (fun entry => entry.2 ∉
          (readable join.leftKey left).flatMap fun entry =>
            Join.partners printers (join.index printers) entry.1) =
        join.right.zipIdx.filter
          ((fun value => !join.IsMet (standsIn printers) left value) ∘ Prod.fst) := by
      refine filter_congr fun entry hentry => ?_
      rw [Function.comp_apply, Join.IsMet, Bool.eq_iff_iff]
      simp only [mem_flatMap, mem_partners_iff (hright entry hentry), decide_eq_true_eq,
        Bool.not_eq_true', ← Bool.not_eq_true, any_eq_true]
    rw [hkept]
    conv_rhs => rw [← zipIdx_map_fst 0 join.right, filter_map, map_map]
    refine map_congr_left fun entry hentry => ?_
    rw [rightKey_index (hright entry (mem_filter.1 hentry).1)]
    rfl
  · rfl

theorem rows_events (left : List Value) :
    rows (join.events printers left) = join.relational (standsIn printers) left := by
  rw [Join.events, rows_map_failure, rows_probe, nil_append, unmatched_eq, Join.relational]
  simp only [rowsOf_partners]

variable {limits : MaterializationLimits}

theorem rows_run :
    rows (join.run printers estimatedSize limits left) =
      if ((limits.budgetFor "join").chargeAll estimatedSize join.right).isOk then
        join.relational (standsIn printers) left
      else [] := by
  rw [Join.run]
  cases (limits.budgetFor "join").chargeAll estimatedSize join.right with
  | error exceeded => rfl
  | ok budget => exact rows_events left

end Rows

/-! ### Where the keys do not meet alike -/

/-- Whether keys of the two sides stand in for each other exactly where they are related. Keys
that are null are left out. -/
def Join.KeysMeetAlike (join : Join) (printers : Printers) (related : Value → Value → Bool)
    (left : List Value) : Prop :=
  ∀ entry ∈ readable join.leftKey left, ∀ other ∈ readable join.keyOfRight join.right,
    entry.1.isNull = false → other.1.isNull = false →
      (keyRepr printers entry.1 = keyRepr printers other.1 ↔ related entry.1 other.1 = true)

section Reference

variable {join : Join} {printers : Printers} {related others : Value → Value → Bool}
  {left : List Value}

theorem meets_iff :
    join.Meets related known value = true ↔ known.isNull = false ∧
      ∃ other, join.keyOfRight value = .ok other ∧ other.isNull = false ∧
        related known other = true := by
  rw [Join.Meets]
  cases join.keyOfRight value with
  | error failure => simp
  | ok other => simp

theorem mem_met_iff :
    value ∈ join.met related known ↔ value ∈ join.right ∧ join.Meets related known value = true :=
  mem_filter

/-- A row with values of both sides is that of a value and of one that its key meets. -/
theorem both_mem_relational_iff {known value partner : Value} :
    ⟨known, some value, some partner⟩ ∈ join.relational related left ↔
      (known, value) ∈ readable join.leftKey left ∧ partner ∈ join.met related known := by
  rw [Join.relational, mem_append, mem_flatMap]
  constructor
  · rintro (⟨entry, hentry, hrow⟩ | hrow)
    · rw [Join.relationalRows] at hrow
      split_ifs at hrow with hnone hkeeps
      · simp at hrow
      · simp at hrow
      · obtain ⟨found, hfound, heq⟩ := mem_map.1 hrow
        cases heq
        exact ⟨hentry, hfound⟩
    · split_ifs at hrow with hkeeps
      · obtain ⟨found, -, heq⟩ := mem_map.1 hrow
        cases heq
      · cases hrow
  · rintro ⟨hentry, hpartner⟩
    refine .inl ⟨_, hentry, ?_⟩
    rw [Join.relationalRows, if_neg]
    · exact List.mem_map.2 ⟨partner, hpartner, rfl⟩
    · rw [List.isEmpty_iff]
      exact List.ne_nil_of_mem hpartner

/-- The nested loops by two relations have the same rows exactly where keys meet the same values
by both. -/
theorem relational_eq_iff :
    join.relational related left = join.relational others left ↔
      ∀ entry ∈ readable join.leftKey left, ∀ value ∈ join.right,
        join.Meets related entry.1 value = join.Meets others entry.1 value := by
  constructor
  · intro h entry hentry value hvalue
    have hrow := congrArg (⟨entry.1, some entry.2, some value⟩ ∈ ·) h
    simp only [eq_iff_iff, both_mem_relational_iff, and_iff_right hentry, mem_met_iff,
      and_iff_right hvalue] at hrow
    exact Bool.eq_iff_iff.2 hrow
  · intro h
    have hrows : ∀ entry ∈ readable join.leftKey left,
        join.relationalRows related entry.1 entry.2 = join.relationalRows others entry.1 entry.2 :=
        by
      intro entry hentry
      have hmet : join.met related entry.1 = join.met others entry.1 :=
        filter_congr fun value hvalue => h entry hentry value hvalue
      rw [Join.relationalRows, Join.relationalRows, hmet]
    have hunmet : join.right.filter (fun value => !join.IsMet related left value) =
        join.right.filter (fun value => !join.IsMet others left value) := by
      refine filter_congr fun value hvalue => ?_
      rw [Join.IsMet, Join.IsMet, Bool.eq_iff_iff, Bool.not_eq_true', Bool.not_eq_true',
        any_eq_false, any_eq_false]
      refine forall₂_congr fun entry hentry => ?_
      rw [h entry hentry value hvalue]
    rw [Join.relational, Join.relational, flatMap_congr hrows, hunmet]

theorem keysMeetAlike_iff :
    join.KeysMeetAlike printers related left ↔
      ∀ entry ∈ readable join.leftKey left, ∀ value ∈ join.right,
        join.Meets (standsIn printers) entry.1 value = join.Meets related entry.1 value := by
  constructor
  · intro h entry hentry value hvalue
    rw [Bool.eq_iff_iff, meets_iff, meets_iff]
    refine and_congr_right fun hnull => exists_congr fun other => and_congr_right fun hkey =>
      and_congr_right fun hother => ?_
    rw [standsIn, decide_eq_true_eq]
    exact h entry hentry (other, value) (mem_readable.2 ⟨hvalue, hkey⟩) hnull hother
  · intro h entry hentry other hother hnull hothernull
    obtain ⟨hvalue, hkey⟩ := mem_readable.1 hother
    have hmeets := h entry hentry other.2 hvalue
    simp only [Join.Meets, hnull, hkey, hothernull, Bool.not_false, Bool.true_and] at hmeets
    rw [← hmeets, standsIn, decide_eq_true_eq]

end Reference

/-- **A join is the nested loop where keys that look alike are equal.** The rows are those of the
nested loop by equality of keys exactly where the budget admits the values at hand and keys of the
two sides stand in for each other if and only if they are equal, or where a value is refused and
the nested loop has no row. -/
theorem rows_eq_relational_iff (join : Join) (printers : Printers) (powi : ℕ → UInt64)
    (estimatedSize : Value → ℕ) (limits : MaterializationLimits) (left : List Value) :
    rows (join.run printers estimatedSize limits left) = join.relational (Value.eq powi) left ↔
      (limits.budgetFor "join").Admits estimatedSize join.right ∧
          join.KeysMeetAlike printers (Value.eq powi) left ∨
        ¬(limits.budgetFor "join").Admits estimatedSize join.right ∧
          join.relational (Value.eq powi) left = [] := by
  rw [rows_run]
  by_cases hadmits : (limits.budgetFor "join").Admits estimatedSize join.right
  · have hok : ((limits.budgetFor "join").chargeAll estimatedSize join.right).isOk = true := hadmits
    rw [if_pos hok, relational_eq_iff, ← keysMeetAlike_iff, and_iff_right hadmits]
    exact (or_iff_left fun h => h.1 hadmits).symm
  · have hrefused : ¬((limits.budgetFor "join").chargeAll estimatedSize join.right).isOk = true :=
      hadmits
    rw [if_neg hrefused, eq_comm, and_iff_right hadmits]
    exact (or_iff_right fun h => hadmits h.1).symm

/-- **A row of keys that look alike.** A millisecond is joined to a millisecond and a half. -/
theorem not_rows_eq_relational_milliseconds :
    ¬∀ (join : Join) (printers : Printers) (powi : ℕ → UInt64) (estimatedSize : Value → ℕ)
      (limits : MaterializationLimits) (left : List Value),
      (limits.budgetFor "join").Admits estimatedSize join.right →
      rows (join.run printers estimatedSize limits left) =
        join.relational (Value.eq powi) left := by
  intro h
  have hadmits : (Budget.chargeAll (fun _ => 32) (MaterializationLimits.budgetFor ⟨2, 64⟩ "join")
      [.duration 1500000]).isOk = true := rfl
  have hrows := h ⟨[.duration 1500000], .ok, none, .inner⟩ silent (fun _ => 0) (fun _ => 32)
    ⟨2, 64⟩ [.duration 1000000] hadmits
  rw [rows_run, if_pos hadmits, relational_eq_iff] at hrows
  have hmeets := hrows (.duration 1000000, .duration 1000000) (by exact mem_singleton_self _)
    (.duration 1500000) (mem_singleton_self _)
  have hstands : standsIn silent (.duration 1000000) (.duration 1500000) = true := by
    decide +kernel
  rw [Join.Meets, Join.Meets] at hmeets
  exact absurd (hmeets.symm.trans hstands) (by decide)

end OnoSendai.Pipeline
