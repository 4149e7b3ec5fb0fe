import OnoSendai.Protection.Place

/-!
# The mount that serves a path

The deepest mount that contains a path, the last one among equals, is what the path resolves
through. A mount that a later one at a place above it hides serves nothing; beneath a directory
hidden mounts are not listed, and a path is resolved through them all the same. The writable layer
of an overlay is looked up as it is written.
-/

namespace OnoSendai.Protection

open MountTable DomainReach MountInfo
open List hiding any_eq_true getElem?_eq_some_iff map_map mem_map
open Option hiding any_eq_true map_map mem_map or_assoc

/-! ### Which mount is found -/

variable {info : MountInfo} {index : Nat}

variable {other : Nat}

section Deepest

variable {mounts : List MountInfo} {path : String}

/-- The length by which mounts are compared. -/
def MountInfo.depth (info : MountInfo) : Nat :=
  (trimEndSlashes info.target).utf8ByteSize

/-- A mount contains a path, no other that contains it is deeper, and none as deep is later. -/
structure DeepestAt (mounts : List MountInfo) (path : String) (index : Nat) (info : MountInfo) :
    Prop where
  at' : mounts[index]? = some info
  covers : contains info.target path = true
  depth_le : ∀ {other : Nat} {info' : MountInfo}, mounts[other]? = some info' →
    contains info'.target path = true → info'.depth ≤ info.depth
  last : ∀ {other : Nat} {info' : MountInfo}, mounts[other]? = some info' →
    contains info'.target path = true → info'.depth = info.depth → other ≤ index

/-- The mount found so far, with its depth. -/
def deepestStep (path : String) (best : Option (Nat × Nat)) (entry : MountInfo × Nat) :
    Option (Nat × Nat) :=
  if contains entry.1.target path ∧ ∀ previous ∈ best, previous.2 ≤ entry.1.depth then
    some (entry.2, entry.1.depth)
  else
    best

theorem deepest_eq : deepest path mounts =
    (mounts.zipIdx.foldl (deepestStep path) none).map (·.1) :=
  rfl

/-- What the walk over a table has found. -/
def Found (mounts : List MountInfo) (path : String) : Option (Nat × Nat) → Prop
  | none => ∀ info ∈ mounts, contains info.target path = false
  | some (index, depth) => ∃ info, DeepestAt mounts path index info ∧ info.depth = depth

theorem getElem?_append_singleton {info info' : MountInfo}
    (h : (mounts ++ [info])[other]? = some info') :
    mounts[other]? = some info' ∨ other = mounts.length ∧ info' = info := by
  rcases Nat.lt_trichotomy other mounts.length with hlt | rfl | hgt
  · exact Or.inl (by rwa [getElem?_append_left hlt] at h)
  · exact Or.inr ⟨rfl, by simpa using h.symm⟩
  · rw [getElem?_eq_none (by simp; omega)] at h
    cases h

/-- The deepest mount stays so where one is added that does not contain the path or is less deep. -/
theorem DeepestAt.append {found info : MountInfo} (h : DeepestAt mounts path index found)
    (hless : contains info.target path = true → info.depth < found.depth) :
    DeepestAt (mounts ++ [info]) path index found where
  at' := by
    rw [getElem?_append_left (List.getElem?_eq_some_iff.1 h.at').1]
    exact h.at'
  covers := h.covers
  depth_le hother hcontains := by
    rcases getElem?_append_singleton hother with hin | ⟨-, rfl⟩
    · exact h.depth_le hin hcontains
    · exact Nat.le_of_lt (hless hcontains)
  last hother hcontains hsame := by
    rcases getElem?_append_singleton hother with hin | ⟨-, rfl⟩
    · exact h.last hin hcontains hsame
    · exact absurd hsame (Nat.ne_of_lt (hless hcontains))

theorem deepestAt_append (hcontains : contains info.target path = true)
    (hdepth : ∀ {other : Nat} {info' : MountInfo}, mounts[other]? = some info' →
      contains info'.target path = true → info'.depth ≤ info.depth) :
    DeepestAt (mounts ++ [info]) path mounts.length info where
  at' := by simp
  covers := hcontains
  depth_le hother hcontains' := by
    rcases getElem?_append_singleton hother with hin | ⟨-, rfl⟩
    · exact hdepth hin hcontains'
    · exact Nat.le_refl _
  last hother _ _ := by
    rcases getElem?_append_singleton hother with hin | ⟨rfl, -⟩
    · exact Nat.le_of_lt (List.getElem?_eq_some_iff.1 hin).1
    · exact Nat.le_refl _

/-- One more mount is found, or what was found before. -/
theorem found_deepestStep {best : Option (Nat × Nat)} (h : Found mounts path best) :
    Found (mounts ++ [info]) path (deepestStep path best (info, mounts.length)) := by
  cases best with
  | none =>
    by_cases hcontains : contains info.target path = true
    · rw [deepestStep, if_pos ⟨hcontains, fun previous hprevious => by cases hprevious⟩]
      refine ⟨info, deepestAt_append hcontains fun hother hcontains' => ?_, rfl⟩
      rw [h _ (mem_of_getElem? hother)] at hcontains'
      cases hcontains'
    · rw [deepestStep, if_neg fun hboth => hcontains hboth.1]
      intro info' hmem
      rcases mem_append.1 hmem with hmem | hmem
      · exact h info' hmem
      · obtain rfl := mem_singleton.1 hmem
        simpa using hcontains
  | some previous =>
    obtain ⟨found, hfound, hsize⟩ := h
    by_cases hnew : contains info.target path = true ∧ found.depth ≤ info.depth
    · rw [deepestStep, if_pos ⟨hnew.1, fun other hother => by
        obtain rfl := some.inj hother
        exact hsize ▸ hnew.2⟩]
      exact ⟨info, deepestAt_append hnew.1 fun hother hcontains' =>
        (hfound.depth_le hother hcontains').trans hnew.2, rfl⟩
    · have hless : ¬(contains info.target path = true ∧
          ∀ other ∈ some previous, other.2 ≤ info.depth) := fun hboth =>
        hnew ⟨hboth.1, hsize.trans_le (hboth.2 previous rfl)⟩
      rw [deepestStep, if_neg hless]
      exact ⟨found, hfound.append fun hcontains =>
        Nat.lt_of_not_le fun hle => hnew ⟨hcontains, hle⟩, hsize⟩

theorem found_foldl (mounts : List MountInfo) (path : String) :
    Found mounts path (mounts.zipIdx.foldl (deepestStep path) none) := by
  induction mounts using reverseRecOn with
  | nil => exact fun info hinfo => absurd hinfo not_mem_nil
  | append_singleton mounts info ih =>
    rw [zipIdx_append, foldl_append]
    simpa using found_deepestStep ih

theorem DeepestAt.index_eq {index index' : Nat} {info info' : MountInfo}
    (h : DeepestAt mounts path index info) (h' : DeepestAt mounts path index' info') :
    index = index' := by
  have hdepth := Nat.le_antisymm (h'.depth_le h.at' h.covers) (h.depth_le h'.at' h'.covers)
  exact Nat.le_antisymm (h'.last h.at' h.covers hdepth) (h.last h'.at' h'.covers hdepth.symm)

/-- **The mount that is found** contains the path, is deepest, and the last one that is. -/
theorem deepest_eq_some_iff :
    deepest path mounts = some index ↔ ∃ info, DeepestAt mounts path index info := by
  have hfound := found_foldl mounts path
  rw [deepest_eq]
  cases hbest : mounts.zipIdx.foldl (deepestStep path) none with
  | none =>
    rw [hbest] at hfound
    refine iff_of_false (by simp) fun ⟨info, hinfo⟩ => ?_
    have hfalse := hfound info (mem_of_getElem? hinfo.at')
    rw [hinfo.covers] at hfalse
    cases hfalse
  | some best =>
    rw [hbest] at hfound
    obtain ⟨info, hinfo, -⟩ := hfound
    rw [map_some, some.injEq]
    exact ⟨fun h => h ▸ ⟨info, hinfo⟩, fun ⟨info', hinfo'⟩ => hinfo.index_eq hinfo'⟩

/-- No mount is found exactly when none contains the path. -/
theorem deepest_eq_none_iff :
    deepest path mounts = none ↔ ∀ info ∈ mounts, contains info.target path = false := by
  have hfound := found_foldl mounts path
  rw [deepest_eq]
  cases hbest : mounts.zipIdx.foldl (deepestStep path) none with
  | none =>
    rw [hbest] at hfound
    exact iff_of_true rfl hfound
  | some best =>
    rw [hbest] at hfound
    obtain ⟨info, hinfo, -⟩ := hfound
    refine iff_of_false (by simp) fun h => ?_
    have hfalse := h info (mem_of_getElem? hinfo.at')
    rw [hinfo.covers] at hfalse
    cases hfalse

end Deepest

/-! ### Where mounts are -/

variable {point : List String}

section Mounted

variable {mounts : List MountInfo}

/-- A mount of a table is at a place. -/
def MountedAt (mounts : List MountInfo) (index : Nat) (point : List String) : Prop :=
  ∃ info, mounts[index]? = some info ∧ place info.target = some point

/-- A mount is hidden beneath a directory: a later one is at a place above it, in the directory. -/
def Hidden (mounts : List MountInfo) (root : List String) (index : Nat) (point : List String) :
    Prop :=
  ∃ later cover, index < later ∧ MountedAt mounts later cover ∧ root <+: cover ∧
    cover <+: point ∧ cover ≠ point

theorem MountedAt.clean (h : MountedAt mounts index point) : ∀ part ∈ point, Clean part := by
  obtain ⟨info, -, hplace⟩ := h
  exact clean_of_place hplace

theorem mountedAt_cons_zero_iff :
    MountedAt (info :: mounts) 0 point ↔ place info.target = some point := by
  simp [MountedAt]

variable {root point : List String}

theorem hidden_cons_zero_iff :
    Hidden (info :: mounts) root 0 point ↔ ∃ later cover, MountedAt mounts later cover ∧
      root <+: cover ∧ cover <+: point ∧ cover ≠ point := by
  constructor
  · rintro ⟨later, cover, hlater, hmounted, hrest⟩
    obtain ⟨later, rfl⟩ := Nat.exists_eq_succ_of_ne_zero (Nat.ne_of_gt hlater)
    exact ⟨later, cover, hmounted, hrest⟩
  · rintro ⟨later, cover, hmounted, hrest⟩
    exact ⟨later + 1, cover, Nat.succ_pos later, hmounted, hrest⟩

theorem hidden_cons_succ_iff :
    Hidden (info :: mounts) root (index + 1) point ↔ Hidden mounts root index point := by
  constructor
  · rintro ⟨later, cover, hlater, hmounted, hrest⟩
    obtain ⟨later, rfl⟩ := Nat.exists_eq_succ_of_ne_zero (Nat.ne_of_gt (Nat.zero_lt_of_lt hlater))
    exact ⟨later, cover, Nat.lt_of_succ_lt_succ hlater, hmounted, hrest⟩
  · rintro ⟨later, cover, hlater, hmounted, hrest⟩
    exact ⟨later + 1, cover, Nat.succ_lt_succ hlater, hmounted, hrest⟩

/-- A mount is listed beneath a directory: it is at a place within it, and not hidden there. -/
def Listed (mounts : List MountInfo) (root point : List String) : Prop :=
  root <+: point ∧ point ≠ root ∧ ∃ index, MountedAt mounts index point ∧
    ¬ Hidden mounts root index point

theorem listed_cons_iff :
    Listed (info :: mounts) root point ↔
      Listed mounts root point ∨ root <+: point ∧ point ≠ root ∧ place info.target = some point ∧
        ¬ ∃ later cover, MountedAt mounts later cover ∧ root <+: cover ∧ cover <+: point ∧
          cover ≠ point := by
  constructor
  · rintro ⟨hroot, hne, index, hmounted, hhidden⟩
    cases index with
    | zero =>
      exact Or.inr ⟨hroot, hne, mountedAt_cons_zero_iff.1 hmounted,
        fun h => hhidden (hidden_cons_zero_iff.2 h)⟩
    | succ index =>
      exact Or.inl ⟨hroot, hne, index, hmounted, fun h => hhidden (hidden_cons_succ_iff.2 h)⟩
  · rintro (⟨hroot, hne, index, hmounted, hhidden⟩ | ⟨hroot, hne, hplace, hhidden⟩)
    · exact ⟨hroot, hne, index + 1, hmounted, fun h => hhidden (hidden_cons_succ_iff.1 h)⟩
    · exact ⟨hroot, hne, 0, mountedAt_cons_zero_iff.2 hplace,
        fun h => hhidden (hidden_cons_zero_iff.1 h)⟩

/-- What hides a mount among those that follow it. -/
theorem any_hides_iff (hroot : ∀ part ∈ root, Clean part) (hpoint : ∀ part ∈ point, Clean part) :
    (mounts.any fun info =>
        (absolute info.target).any fun cover =>
          cover ≠ written point && contains cover (written point) &&
            contains (written root) cover) = true ↔
      ∃ later cover, MountedAt mounts later cover ∧ root <+: cover ∧ cover <+: point ∧
        cover ≠ point := by
  rw [List.any_eq_true]
  constructor
  · rintro ⟨info, hmem, hany⟩
    obtain ⟨later, hlater⟩ := mem_iff_getElem?.1 hmem
    rw [absolute_eq] at hany
    cases hplace : place info.target with
    | none => simp [hplace] at hany
    | some cover =>
      have hcover := clean_of_place hplace
      rw [hplace] at hany
      simp only [map_some, any_some, Bool.and_eq_true, decide_eq_true_eq,
        contains_iff_prefix hcover hpoint, contains_iff_prefix hroot hcover] at hany
      exact ⟨later, cover, ⟨info, hlater, hplace⟩, hany.2, hany.1.2,
        fun heq => hany.1.1 (heq ▸ rfl)⟩
  · rintro ⟨later, cover, ⟨info, hlater, hplace⟩, hwithin, habove, hne⟩
    have hcover := clean_of_place hplace
    refine ⟨info, mem_of_getElem? hlater, ?_⟩
    rw [absolute_eq, hplace]
    simp only [map_some, any_some, Bool.and_eq_true, decide_eq_true_eq,
      contains_iff_prefix hcover hpoint, contains_iff_prefix hroot hcover]
    exact ⟨⟨fun heq => hne ((written_inj hcover hpoint).1 heq), habove⟩, hwithin⟩

/-- **What is listed beneath a directory**, in the order of the table. -/
theorem mem_pointsBeneath_iff {root : List String} (hroot : ∀ part ∈ root, Clean part)
    {points : List String} {text : String} :
    text ∈ pointsBeneath (written root) mounts points ↔
      text ∈ points ∨ ∃ point, text = written point ∧ Listed mounts root point := by
  induction mounts generalizing points with
  | nil => simp [pointsBeneath, Listed, MountedAt]
  | cons info later ih =>
    rw [pointsBeneath, absolute_eq]
    simp only [listed_cons_iff]
    cases hplace : place info.target with
    | none => simp [ih]
    | some point =>
      have hpoint := clean_of_place hplace
      have hself : point = root ↔ written point = written root := (written_inj hpoint hroot).symm
      have hwithin := contains_iff_prefix hroot hpoint
      have hhides := @any_hides_iff later root point hroot hpoint
      simp only [map_some, some.injEq]
      by_cases hskip : written point = written root ∨ ¬ contains (written root) (written point) ∨
          written point ∈ points
      · rw [if_pos hskip, ih]
        refine or_congr_right' fun hnew => exists_congr fun other => and_congr_right ?_
        rintro rfl
        refine ⟨Or.inl, ?_⟩
        rintro (hlisted | ⟨hbegins, hne, rfl, -⟩)
        · exact hlisted
        · rcases hskip with hsame | hout | hold
          · exact absurd (hself.2 hsame) hne
          · exact absurd (hwithin.2 hbegins) hout
          · exact absurd hold hnew
      · rw [if_neg hskip]
        push Not at hskip
        by_cases hhidden : (later.any fun info =>
            (absolute info.target).any fun cover =>
              cover ≠ written point && contains cover (written point) &&
                contains (written root) cover) = true
        · rw [if_pos hhidden, ih]
          refine or_congr_right (exists_congr fun other => and_congr_right fun _ => ⟨Or.inl, ?_⟩)
          rintro (hlisted | ⟨-, -, rfl, hvisible⟩)
          · exact hlisted
          · exact absurd (hhides.1 hhidden) hvisible
        · rw [if_neg hhidden, ih, mem_append, mem_singleton, or_assoc]
          refine or_congr_right ⟨?_, ?_⟩
          · rintro (rfl | ⟨other, rfl, hlisted⟩)
            · exact ⟨point, rfl, Or.inr ⟨hwithin.1 hskip.2.1, fun heq => hskip.1 (hself.1 heq), rfl,
                fun h => hhidden (hhides.2 h)⟩⟩
            · exact ⟨other, rfl, Or.inl hlisted⟩
          · rintro ⟨other, rfl, hlisted | ⟨-, -, rfl, -⟩⟩
            · exact Or.inr ⟨other, rfl, hlisted⟩
            · exact Or.inl rfl

/-- Each point is listed once. -/
theorem nodup_pointsBeneath (root : String) (mounts : List MountInfo) {points : List String}
    (h : points.Nodup) : (pointsBeneath root mounts points).Nodup := by
  induction mounts generalizing points with
  | nil => exact h
  | cons info later ih =>
    rw [pointsBeneath]
    cases absolute info.target with
    | none => exact ih h
    | some point =>
      dsimp only
      by_cases hskip : point = root ∨ ¬ contains root point ∨ point ∈ points
      · rw [if_pos hskip]
        exact ih h
      · rw [if_neg hskip]
        push Not at hskip
        refine ih ?_
        split_ifs
        · exact h
        · exact nodup_append.2 ⟨h, nodup_singleton point, fun a ha b hb => by
            obtain rfl := mem_singleton.1 hb
            exact fun heq => hskip.2.2 (heq ▸ ha)⟩

end Mounted

/-! ### Filesystems beneath a directory -/

variable {parts : List String}

section Table

variable (table : MountTable)

namespace MountTable

/-- The place in the table of the mount a path is served by. -/
def pick (path : String) : Option Nat :=
  (absolute path).bind fun target => deepest target table.mounts

/-- The mount a path is served by. -/
def mountFor (path : String) : Option MountInfo :=
  (table.pick path).bind fun index => table.mounts[index]?

end MountTable

variable {table}

/-- **What is listed beneath a directory.** -/
theorem mem_boundariesBeneath_iff {root : String} (hroot : place root = some parts)
    {boundary : MountBoundary} :
    boundary ∈ table.boundariesBeneath root ↔
      ∃ point, Listed table.mounts parts point ∧
        boundary = ⟨written point, table.resolve (written point)⟩ := by
  rw [boundariesBeneath, absolute_eq, hroot]
  simp only [map_some, List.mem_map, mem_insertionSort,
    mem_pointsBeneath_iff (clean_of_place hroot), not_mem_nil, false_or]
  constructor
  · rintro ⟨text, ⟨point, rfl, hlisted⟩, rfl⟩
    exact ⟨point, hlisted, rfl⟩
  · rintro ⟨point, hlisted, rfl⟩
    exact ⟨written point, ⟨point, rfl, hlisted⟩, rfl⟩

theorem nodup_boundariesBeneath (root : String) :
    ((table.boundariesBeneath root).map (·.mountPoint)).Nodup := by
  unfold boundariesBeneath
  cases absolute root with
  | none => exact nodup_nil
  | some root =>
    dsimp only
    rw [List.map_map]
    refine Nodup.map (fun a b h => h) ?_
    exact ((perm_insertionSort (· ≤ ·) _).nodup_iff).2 (nodup_pointsBeneath _ _ nodup_nil)

end Table

/-! ### What is asked of a path -/

section Subject

variable {mounts : List MountInfo} {inNamespace : Option String}

/-- Two ways to follow a writable layer that agree but for the path it is asked of. -/
def FollowAlike (follow follow' : Option (String → PersistenceDomain)) : Prop :=
  Rel (fun resolve resolve' => ∀ upper,
    resolve upper = { resolve' upper with path := (resolve upper).path }) follow follow'

variable {follow follow' : Option (String → PersistenceDomain)}

/-- The domain of a path on an overlay is that of any other, but for the path. -/
theorem resolveOverlay_path (hfollow : FollowAlike follow follow') (subject subject' : String)
    (index : Nat) (info : MountInfo) (mount : ResolvedMount) :
    resolveOverlay mounts follow subject index info mount =
      { resolveOverlay mounts follow' subject' index info mount with path := subject } := by
  unfold resolveOverlay
  cases mount.option "upperdir" with
  | none => rfl
  | some upper =>
    cases hfollow with
    | none => rfl
    | @some resolve resolve' halike =>
      dsimp only
      by_cases hhidden : ((absolute upper).bind fun lookup => deepest lookup mounts) = none ∨
          ((absolute upper).bind fun lookup => deepest lookup mounts) = some index
      · rw [if_pos hhidden, if_pos hhidden]
        rfl
      · rw [if_neg hhidden, if_neg hhidden, halike upper]
        have hreach : of { resolve' upper with path := (resolve upper).path } =
            of (resolve' upper) := rfl
        rw [hreach]
        cases of (resolve' upper) <;> rfl

theorem resolveMount_path (hfollow : FollowAlike follow follow') (subject subject' : String)
    (index : Nat) (info : MountInfo) :
    resolveMount mounts inNamespace follow subject index info =
      { resolveMount mounts inNamespace follow' subject' index info with path := subject } := by
  unfold resolveMount
  dsimp only
  cases (info.resolvedMount inNamespace).kind with
  | overlay => exact resolveOverlay_path hfollow ..
  | zfs | btrfs | ext4 | xfs | lvm | network | pseudo | volatile | other | unknown => rfl

/-- A path is resolved as any other that is found at one place, but for itself. -/
theorem resolveAt_path (subject subject' : String) (remaining : Nat) (lookup : String) :
    resolveAt mounts inNamespace subject remaining lookup =
      { resolveAt mounts inNamespace subject' remaining lookup with path := subject } := by
  induction remaining generalizing lookup with
  | zero =>
    unfold resolveAt
    cases (deepest lookup mounts).bind fun index => mounts[index]?.map (index, ·) with
    | none => rfl
    | some found => exact resolveMount_path .none ..
  | succ remaining ih =>
    unfold resolveAt
    cases (deepest lookup mounts).bind fun index => mounts[index]?.map (index, ·) with
    | none => rfl
    | some found =>
      refine resolveMount_path (.some fun upper => ?_) ..
      rw [ih upper]

theorem resolveAt_congr {lookup lookup' : String}
    (h : deepest lookup mounts = deepest lookup' mounts) (hfound : deepest lookup mounts ≠ none)
    (subject : String) (remaining : Nat) :
    resolveAt mounts inNamespace subject remaining lookup =
      resolveAt mounts inNamespace subject remaining lookup' := by
  obtain ⟨index, hindex⟩ := ne_none_iff_exists'.1 hfound
  obtain ⟨info, hinfo⟩ := deepest_eq_some_iff.1 hindex
  unfold resolveAt
  rw [← h, hindex]
  simp only [bind_some, hinfo.at', map_some]

theorem mountPoint_resolveMount_none (subject : String) (index : Nat) (info : MountInfo) :
    (resolveMount mounts inNamespace none subject index info).mount.mountPoint = info.target := by
  unfold resolveMount
  dsimp only
  cases (info.resolvedMount inNamespace).kind with
  | overlay =>
    unfold resolveOverlay
    dsimp only
    cases (info.resolvedMount inNamespace).option "upperdir" <;> rfl
  | zfs | btrfs | ext4 | xfs | lvm | network | pseudo | volatile | other | unknown => rfl

/-- Two places that are resolved alike where no more layers are followed are found at one mount. -/
theorem deepest_eq_of_resolveAt_zero {lookup lookup' : String}
    (hroot : startsWith lookup "/" = true) (hfound : deepest lookup' mounts ≠ none)
    (subject : String)
    (h : resolveAt mounts inNamespace subject 0 lookup =
      resolveAt mounts inNamespace subject 0 lookup') :
    deepest lookup mounts = deepest lookup' mounts := by
  obtain ⟨index', hindex'⟩ := ne_none_iff_exists'.1 hfound
  obtain ⟨info', hinfo'⟩ := deepest_eq_some_iff.1 hindex'
  have hpoint := congrArg (fun domain => domain.mount.mountPoint) h
  unfold resolveAt at hpoint
  simp only [hindex', bind_some, hinfo'.at', map_some,
    mountPoint_resolveMount_none] at hpoint
  cases hindex : deepest lookup mounts with
  | none =>
    rw [hindex] at hpoint
    have htarget : "" = info'.target := hpoint
    have hnone := deepest_eq_none_iff.1 hindex info' (mem_of_getElem? hinfo'.at')
    rw [← htarget] at hnone
    have hcontains : contains "" lookup = true := hroot
    rw [hcontains] at hnone
    cases hnone
  | some index =>
    obtain ⟨info, hinfo⟩ := deepest_eq_some_iff.1 hindex
    rw [hindex] at hpoint
    simp only [bind_some, hinfo.at', map_some, mountPoint_resolveMount_none] at hpoint
    have hdepth : info.depth = info'.depth := by rw [depth, hpoint, depth]
    rw [hindex']
    refine congrArg some (Nat.le_antisymm ?_ ?_)
    · exact hinfo'.last hinfo.at' (hpoint ▸ hinfo'.covers) hdepth
    · exact hinfo.last hinfo'.at' (hpoint ▸ hinfo.covers) hdepth.symm

end Subject

/-! ### Overlays whose layers never end -/

/-- The writable layer of a mount is followed: it is an overlay, and its layer is elsewhere. -/
structure FollowsLayer (mounts : List MountInfo) (index : Nat) (upper target : String) : Prop where
  overlay : ∃ info, mounts[index]? = some info ∧
    FilesystemKind.ofMountType info.filesystem = .overlay ∧
    info.options.findSome? (stripBeginning "upperdir=") = some upper
  absolute : absolute upper = some target
  found : deepest target mounts ≠ none
  elsewhere : deepest target mounts ≠ some index

/-- Layers that never end: each is on an overlay whose writable layer is one of them. -/
def Endless (mounts : List MountInfo) (layers : String → Prop) : Prop :=
  ∀ lookup, layers lookup → ∃ index info upper, deepest lookup mounts = some index ∧
    mounts[index]? = some info ∧ FilesystemKind.ofMountType info.filesystem = .overlay ∧
    info.options.findSome? (stripBeginning "upperdir=") = some upper ∧ layers upper

section Endless

variable {mounts : List MountInfo} {inNamespace : Option String}

theorem reach_copyOnly_ne_any {subject upper : String} {mount : ResolvedMount}
    (hmount : mount.kind = .overlay) : of (copyOnly subject info mount upper) ≠ .any := by
  unfold of
  split_ifs with hprotectable hoverlay
  · simp
  · simp
  · exact absurd hmount hoverlay

/-- **Overlays whose layers never end** resolve to a refusal, or to what may only be copied. -/
theorem reach_resolveAt_ne_any {layers : String → Prop} (hendless : Endless mounts layers)
    (subject : String) (remaining : Nat) {lookup : String} (h : layers lookup) :
    of (resolveAt mounts inNamespace subject remaining lookup) ≠ .any := by
  induction remaining generalizing lookup with
  | zero =>
    obtain ⟨index, info, upper, hindex, hinfo, hkind, hupper, -⟩ := hendless lookup h
    have hkind' : (info.resolvedMount inNamespace).kind = .overlay := hkind
    have hupper' : (info.resolvedMount inNamespace).option "upperdir" = some upper := hupper
    unfold resolveAt
    simp only [hindex, bind_some, hinfo, map_some]
    unfold resolveMount
    simp only [hkind']
    unfold resolveOverlay
    simp only [hupper']
    exact fun hany => nomatch hany
  | succ remaining ih =>
    obtain ⟨index, info, upper, hindex, hinfo, hkind, hupper, hlayer⟩ := hendless lookup h
    have hkind' : (info.resolvedMount inNamespace).kind = .overlay := hkind
    have hupper' : (info.resolvedMount inNamespace).option "upperdir" = some upper := hupper
    have hnext := ih hlayer
    unfold resolveAt
    simp only [hindex, bind_some, hinfo, map_some]
    unfold resolveMount
    simp only [hkind']
    unfold resolveOverlay
    simp only [hupper']
    by_cases hhidden : ((absolute upper).bind fun lookup => deepest lookup mounts) = none ∨
        ((absolute upper).bind fun lookup => deepest lookup mounts) = some index
    · rw [if_pos hhidden]
      exact reach_copyOnly_ne_any hkind'
    · rw [if_neg hhidden]
      cases hreach : of (resolveAt mounts inNamespace subject remaining upper) with
      | refused => exact fun hany => nomatch hany
      | copyOnly => exact reach_copyOnly_ne_any hkind'
      | any => exact absurd hreach hnext

end Endless

/-! ### What serves a path -/

/-- The mount at a place really serves a path: the place is above the path, no mount above it is
deeper, no later one is at the same place, and none hides it. -/
structure ServedBy (mounts : List MountInfo) (path : List String) (index : Nat)
    (point : List String) : Prop where
  at' : MountedAt mounts index point
  above : point <+: path
  deepest : ∀ {other : Nat} {point' : List String}, MountedAt mounts other point' →
    point' <+: path → point' <+: point
  last : ∀ {other : Nat}, MountedAt mounts other point → other ≤ index
  visible : ¬ Hidden mounts [] index point

/-- Paths are resolved to what serves them. -/
structure ResolvesWhatServes (table : MountTable) : Prop where
  picks : ∀ {path : String} {parts : List String} {index : Nat}, place path = some parts →
    table.pick path = some index → ∃ point, ServedBy table.mounts parts index point
  finds : ∀ {path : String} {parts : List String}, place path = some parts →
    table.pick path = none → ∀ {other : Nat} {point : List String},
      MountedAt table.mounts other point → ¬ point <+: parts
  resolves : ∀ {root : String} {boundary : MountBoundary},
    boundary ∈ table.boundariesBeneath root →
      boundary.domain = table.resolve boundary.mountPoint ∧
        ∃ index point, place boundary.mountPoint = some point ∧
          table.pick boundary.mountPoint = some index ∧ MountedAt table.mounts index point
  lists : ∀ {root : String} {parts point : List String} {index : Nat}, place root = some parts →
    MountedAt table.mounts index point → parts <+: point → point ≠ parts →
      ¬ Hidden table.mounts parts index point →
        ((table.boundariesBeneath root).map (·.mountPoint)).count (written point) = 1
  normalised : ∀ {path target : String}, absolute path = some target →
    table.resolve path = { table.resolve target with path := path }
  layers : ∀ {index : Nat} {upper target : String}, FollowsLayer table.mounts index upper target →
    ∀ subject remaining, remaining < maxOverlayDepth →
      resolveAt table.mounts table.inNamespace subject remaining upper =
        resolveAt table.mounts table.inNamespace subject remaining target
  ends : ∀ {path target : String} {layers : String → Prop}, absolute path = some target →
    Endless table.mounts layers → layers target → of (table.resolve path) ≠ .any

/-- A table in which the last mount at each place is written as that place is and stays visible, the
root is spelled out, and writable layers are written so that they are found where they are. -/
structure PlainlyMounted (table : MountTable) : Prop where
  spelled : ∀ {index : Nat} {info : MountInfo} {point : List String},
    table.mounts[index]? = some info → place info.target = some point →
      (∀ {other : Nat}, MountedAt table.mounts other point → other ≤ index) →
        Spells info.target point
  visible : ∀ {index : Nat} {point : List String}, MountedAt table.mounts index point →
    (∀ {other : Nat}, MountedAt table.mounts other point → other ≤ index) →
      ¬ Hidden table.mounts [] index point
  rooted : ∀ {index : Nat} {info : MountInfo}, table.mounts[index]? = some info →
    info.target = "" → ∃ later, index < later ∧ MountedAt table.mounts later []
  layers : ∀ {index : Nat} {upper target : String}, FollowsLayer table.mounts index upper target →
    deepest upper table.mounts = deepest target table.mounts

section Serves

variable {table : MountTable}

open Classical in
theorem exists_last {mounts : List MountInfo} (h : MountedAt mounts index point) :
    ∃ last, MountedAt mounts last point ∧ ∀ {other : Nat}, MountedAt mounts other point →
      other ≤ last := by
  have hbound {other : Nat} (hother : MountedAt mounts other point) : other ≤ mounts.length := by
    obtain ⟨info, hinfo, -⟩ := hother
    exact Nat.le_of_lt (List.getElem?_eq_some_iff.1 hinfo).1
  refine ⟨Nat.findGreatest (MountedAt mounts · point) mounts.length, ?_, fun hother => ?_⟩
  · exact Nat.findGreatest_spec (P := (MountedAt mounts · point)) (hbound h) h
  · exact Nat.le_findGreatest (hbound hother) hother

theorem pick_eq {path : String} (h : place path = some parts) :
    table.pick path = deepest (written parts) table.mounts := by
  rw [pick, absolute_eq, h]
  rfl

theorem PlainlyMounted.exists_contains (hplain : PlainlyMounted table) {parts point : List String}
    (hparts : ∀ part ∈ parts, Clean part) (h : MountedAt table.mounts other point)
    (habove : point <+: parts) :
    ∃ last info, other ≤ last ∧ table.mounts[last]? = some info ∧
      place info.target = some point ∧ Spells info.target point ∧
        contains info.target (written parts) = true := by
  obtain ⟨last, ⟨info, hinfo, hplace⟩, hlast⟩ := exists_last h
  have hspells := hplain.spelled hinfo hplace hlast
  exact ⟨last, info, hlast h, hinfo, hplace, hspells,
    (contains_written_iff hparts).2 ⟨point, habove, hspells⟩⟩

theorem PlainlyMounted.deepest_ne_none (hplain : PlainlyMounted table) {parts point : List String}
    (hparts : ∀ part ∈ parts, Clean part) (h : MountedAt table.mounts other point)
    (habove : point <+: parts) : deepest (written parts) table.mounts ≠ none := by
  obtain ⟨last, info, -, hinfo, -, -, hcontains⟩ := hplain.exists_contains hparts h habove
  intro hnone
  rw [deepest_eq_none_iff.1 hnone info (mem_of_getElem? hinfo)] at hcontains
  cases hcontains

/-- **What is picked in a plainly mounted table** serves the path. -/
theorem PlainlyMounted.servedBy (hplain : PlainlyMounted table)
    (hparts : ∀ part ∈ parts, Clean part) (h : deepest (written parts) table.mounts = some index) :
    ∃ point, ServedBy table.mounts parts index point := by
  obtain ⟨info, hinfo⟩ := deepest_eq_some_iff.1 h
  obtain ⟨point, habove, hspells⟩ := (contains_written_iff hparts).1 hinfo.covers
  have hclean : ∀ part ∈ point, Clean part := fun part hpart => hparts part (habove.subset hpart)
  have hlast {other : Nat} (hother : MountedAt table.mounts other point) : other ≤ index := by
    obtain ⟨last, info', hle, hinfo', -, hspells', hcontains⟩ :=
      hplain.exists_contains hparts hother habove
    have hdepth : info'.depth = info.depth := by
      rw [depth, hspells', ← hspells, depth]
    exact hle.trans (hinfo.last hinfo' hcontains hdepth)
  have hne : info.target ≠ "" := by
    intro hempty
    obtain ⟨later, hlater, hroot⟩ := hplain.rooted hinfo.at' hempty
    have hnil : point = [] := by
      refine spells_unique hclean (fun part hpart => absurd hpart not_mem_nil) hspells ?_
      rw [hempty]
      rfl
    have hle := hlast (hnil ▸ hroot)
    omega
  have hmounted : MountedAt table.mounts index point :=
    ⟨info, hinfo.at', place_of_spells hclean hspells hne⟩
  refine ⟨point, hmounted, habove, fun {other point'} hother habove' => ?_, hlast,
    hplain.visible hmounted hlast⟩
  rcases prefix_or_prefix_of_prefix habove' habove with hprefix | hprefix
  · exact hprefix
  · obtain ⟨last, info', -, hinfo', -, hspells', hcontains⟩ :=
      hplain.exists_contains hparts hother habove'
    have hclean' : ∀ part ∈ point', Clean part := fun part hpart =>
      hparts part (habove'.subset hpart)
    have hsame := (size_le_of_spells hclean' hspells hspells' hprefix).2
      (hinfo.depth_le hinfo' hcontains)
    exact hsame ▸ prefix_rfl

theorem ResolvesWhatServes.servedBy_last (h : ResolvesWhatServes table)
    (hmounted : MountedAt table.mounts index point)
    (hlast : ∀ {other : Nat}, MountedAt table.mounts other point → other ≤ index) :
    deepest (written point) table.mounts = some index ∧
      ServedBy table.mounts point index point := by
  have hplace := place_written hmounted.clean
  cases hpick : table.pick (written point) with
  | none => exact absurd prefix_rfl (h.finds hplace hpick hmounted)
  | some picked =>
    obtain ⟨point', hserved⟩ := h.picks hplace hpick
    obtain rfl := hserved.above.eq_of_length_le
      (hserved.deepest hmounted prefix_rfl).length_le
    obtain rfl := Nat.le_antisymm (hlast hserved.at') (hserved.last hmounted)
    exact ⟨(pick_eq hplace).symm.trans hpick, hserved⟩

/-- Where paths are resolved to what serves them, the table is plainly mounted. -/
theorem ResolvesWhatServes.plainlyMounted (h : ResolvesWhatServes table) :
    PlainlyMounted table where
  spelled {index info point} hinfo hplace hlast := by
    obtain ⟨hdeepest, -⟩ := h.servedBy_last ⟨info, hinfo, hplace⟩ hlast
    have hpoint := clean_of_place hplace
    obtain ⟨info', hinfo'⟩ := deepest_eq_some_iff.1 hdeepest
    obtain rfl := some.inj (hinfo'.at'.symm.trans hinfo)
    obtain ⟨point', habove, hspells⟩ := (contains_written_iff hpoint).1 hinfo'.covers
    have hne : info'.target ≠ "" := by
      intro hempty
      have hnone : place "" = none := by decide
      rw [hempty, hnone] at hplace
      cases hplace
    have hplace' := place_of_spells (fun part hpart => hpoint part (habove.subset hpart)) hspells
      hne
    obtain rfl := some.inj (hplace'.symm.trans hplace)
    exact hspells
  visible hmounted hlast := (h.servedBy_last hmounted hlast).2.visible
  rooted {index info} hinfo hempty := by
    have hroot : place (written []) = some [] := by decide
    have hcontains : contains info.target (written []) = true := by
      rw [hempty]
      decide
    cases hpick : table.pick (written []) with
    | none =>
      rw [pick_eq hroot, deepest_eq_none_iff] at hpick
      rw [hpick info (mem_of_getElem? hinfo)] at hcontains
      cases hcontains
    | some picked =>
      obtain ⟨point, hserved⟩ := h.picks hroot hpick
      obtain rfl := prefix_nil.1 hserved.above
      rw [pick_eq hroot] at hpick
      obtain ⟨info', hinfo'⟩ := deepest_eq_some_iff.1 hpick
      obtain ⟨found, hfound, hplace⟩ := hserved.at'
      obtain rfl := some.inj (hfound.symm.trans hinfo'.at')
      have hdepth : info.depth = found.depth := by
        refine Nat.le_antisymm (hinfo'.depth_le hinfo hcontains) ?_
        have hclean : ∀ part ∈ ([] : List String), Clean part :=
          fun part hpart => absurd hpart not_mem_nil
        obtain ⟨point, habove, hspells⟩ := (contains_written_iff hclean).1 hinfo'.covers
        obtain rfl := prefix_nil.1 habove
        rw [depth, hspells]
        exact Nat.zero_le _
      refine ⟨picked, Nat.lt_of_le_of_ne (hinfo'.last hinfo hcontains hdepth) ?_, hserved.at'⟩
      rintro rfl
      obtain rfl := some.inj (hinfo.symm.trans hfound)
      rw [hempty] at hplace
      exact absurd hplace (by decide)
  layers {index upper target} hfollows := by
    refine deepest_eq_of_resolveAt_zero ?_ hfollows.found "" (h.layers hfollows "" 0 (by decide))
    have habsolute := hfollows.absolute
    unfold absolute at habsolute
    split_ifs at habsolute with hstarts
    exact hstarts

/-- A plainly mounted table resolves paths to what serves them. -/
theorem PlainlyMounted.resolvesWhatServes (h : PlainlyMounted table) :
    ResolvesWhatServes table where
  picks hplace hpick := h.servedBy (clean_of_place hplace) ((pick_eq hplace).symm.trans hpick)
  finds hplace hpick _ _ hmounted habove :=
    h.deepest_ne_none (clean_of_place hplace) hmounted habove ((pick_eq hplace).symm.trans hpick)
  resolves {root boundary} hmem := by
    cases hplace : place root with
    | none =>
      rw [boundariesBeneath, absolute_eq, hplace] at hmem
      exact absurd hmem not_mem_nil
    | some parts =>
      obtain ⟨point, ⟨-, -, index, hmounted, -⟩, rfl⟩ := (mem_boundariesBeneath_iff hplace).1 hmem
      have hclean := hmounted.clean
      have hpoint := place_written hclean
      obtain ⟨picked, hpicked⟩ := ne_none_iff_exists'.1
        (h.deepest_ne_none hclean hmounted prefix_rfl)
      obtain ⟨point', hserved⟩ := h.servedBy hclean hpicked
      obtain rfl := (hserved.above).eq_of_length_le
        (hserved.deepest hmounted prefix_rfl).length_le
      exact ⟨rfl, picked, point', hpoint, (pick_eq hpoint).trans hpicked, hserved.at'⟩
  lists {root parts point index} hplace hmounted habove hne hvisible := by
    refine count_eq_one_of_mem (nodup_boundariesBeneath root) ?_
    refine List.mem_map.2 ⟨⟨written point, table.resolve (written point)⟩, ?_, rfl⟩
    exact (mem_boundariesBeneath_iff hplace).2
      ⟨point, ⟨habove, hne, index, hmounted, hvisible⟩, rfl⟩
  normalised {path target} habsolute := by
    unfold resolve
    rw [habsolute, absolute_absolute habsolute]
    exact resolveAt_path ..
  layers hfollows subject remaining _ := by
    have hsame := h.layers hfollows
    refine resolveAt_congr hsame ?_ subject remaining
    rw [hsame]
    exact hfollows.found
  ends {path target layers} habsolute hendless hlayer := by
    unfold resolve
    rw [habsolute]
    exact reach_resolveAt_ne_any hendless path maxOverlayDepth hlayer

/-- **Paths are resolved to what serves them exactly in plainly mounted tables.** -/
theorem resolvesWhatServes_iff : ResolvesWhatServes table ↔ PlainlyMounted table :=
  ⟨fun h => h.plainlyMounted, fun h => h.resolvesWhatServes⟩

/-- **A mount that was mounted over still serves paths.** The disk at `/srv/data` is out of reach
once another is mounted at `/srv`, and a file beneath it is resolved to it. -/
theorem not_resolvesWhatServes_mountedOver : ¬ ∀ table, ResolvesWhatServes table := by
  intro h
  let mounts : List MountInfo :=
    [⟨"/dev/sda1", "/", "ext4", [], "8:1"⟩, ⟨"/dev/sdb1", "/srv/data", "ext4", [], "8:17"⟩,
      ⟨"/dev/sdc1", "/srv", "ext4", [], "8:33"⟩]
  have hplace : place "/srv/data/db" = some ["srv", "data", "db"] := by decide +kernel
  have hpick : (⟨mounts, none⟩ : MountTable).pick "/srv/data/db" = some 1 := by decide +kernel
  obtain ⟨point, hserved⟩ := (h ⟨mounts, none⟩).picks hplace hpick
  obtain ⟨info, hinfo, hpoint⟩ := hserved.at'
  obtain rfl := some.inj hinfo
  have hdata : place "/srv/data" = some ["srv", "data"] := by decide +kernel
  obtain rfl := some.inj (hpoint.symm.trans hdata)
  exact hserved.visible ⟨2, ["srv"], by decide, ⟨_, rfl, by decide +kernel⟩, nil_prefix,
    by decide, by decide⟩

end Serves

end OnoSendai.Protection
