import Mathlib.Data.List.Destutter
import Mathlib.Data.String.Basic
import OnoSendai.Change.Refusal
import OnoSendai.Value.DecimalText

/-!
# Plan references

A plan is named by a prefix of its identity behind a marker. A printed reference is as short as
the plans of the store allow, and what is typed back is read, stripped of its marker and matched
against the identities of the store.
-/

namespace OnoSendai

open HexId
open List hiding isEmpty_eq_false_iff map_map

/-! ### The width of a reference -/

/-- The width of a rendered reference when nothing collides. -/
def shortWidth : ℕ :=
  4

/-- The bytes of a text. -/
def byteLength (text : List Char) : ℕ :=
  (text.map Char.utf8Size).sum

/-- The characters that make up the first `width` bytes of a text, unless one is cut. -/
def firstBytes : ℕ → List Char → Option (List Char)
  | 0, _ => some []
  | _ + 1, [] => none
  | width + 1, c :: text =>
    if c.utf8Size ≤ width + 1 then
      (firstBytes (width + 1 - c.utf8Size) text).map (c :: ·)
    else
      none

/-- The first `width` bytes of an identity, or all of it when it is shorter. -/
def truncate (identity : String) (width : ℕ) : List Char :=
  (firstBytes (min width (byteLength identity.toList)) identity.toList).getD identity.toList

/-- Whether identities cut to a width stay apart: sorted, none repeats the one before it. -/
def distinctAt (identities : List String) (width : ℕ) : Bool :=
  let prefixes := (identities.map (truncate · width)).insertionSort (· ≤ ·)
  (prefixes.destutter (· ≠ ·)).length == prefixes.length

/-- The first width from `width` on at which identities stay apart. -/
def widened (identities : List String) (width : ℕ) : ℕ :=
  if width < fullWidth then
    if distinctAt identities width then width else widened identities (width + 1)
  else
    fullWidth
termination_by fullWidth - width

/-- The shortest prefix width that tells identities apart, never below `minimum`. -/
def shortestUniquePrefixes (identities : List String) (minimum : ℕ) : ℕ :=
  widened identities (max minimum 1)

/-- The width a printed plan reference needs so that it still resolves to one plan. -/
def planReferenceWidth (identities : List String) : ℕ :=
  shortestUniquePrefixes identities shortWidth

/-- A plan reference rendered at a width, with its marker. -/
def renderPlan (plan : PlanId) (width : ℕ) : String :=
  String.ofList (IdKind.plan.marker.toList ++ truncate plan.body width)

theorem length_destutter_eq_iff {α : Type} [LinearOrder α] [DecidableEq α]
    {items : List α} (hsorted : items.Pairwise (· ≤ ·)) :
    (items.destutter (· ≠ ·)).length = items.length ↔ items.Nodup := by
  rw [(destutter_sublist (· ≠ ·) items).length_eq, destutter_eq_self_iff]
  constructor
  · intro hchain
    have hlt : items.IsChain (· < ·) := by
      refine isChain_iff_forall_rel_of_append_cons_cons.2 fun _ _ _ _ h => ?_
      exact lt_of_le_of_ne (isChain_iff_forall_rel_of_append_cons_cons.1 hsorted.isChain h)
        (isChain_iff_forall_rel_of_append_cons_cons.1 hchain h)
    exact hlt.pairwise.imp fun h => ne_of_lt h
  · exact fun hnodup => Pairwise.isChain hnodup

variable {width : ℕ}

theorem distinctAt_iff {identities : List String} :
    distinctAt identities width = true ↔ (identities.map (truncate · width)).Nodup := by
  simp only [distinctAt, beq_iff_eq]
  rw [length_destutter_eq_iff (pairwise_insertionSort _ _),
    (perm_insertionSort _ _).nodup_iff]

/-- No width before the one found keeps the identities apart, and the one found does unless it
is the full one. -/
theorem widened_spec (identities : List String) (hwidth : width ≤ fullWidth) :
    width ≤ widened identities width ∧
      (distinctAt identities (widened identities width) = true ∨
        widened identities width = fullWidth) ∧
      ∀ smaller, width ≤ smaller → smaller < widened identities width →
        distinctAt identities smaller = false := by
  fun_induction widened identities width with
  | case1 width _ hdistinct => exact ⟨le_rfl, .inl hdistinct, fun smaller h hlt => by omega⟩
  | case2 width hlt hdistinct ih =>
    obtain ⟨hle, hfound, hsmaller⟩ := ih hlt
    refine ⟨by omega, hfound, fun smaller h hbefore => ?_⟩
    rcases h.eq_or_lt with rfl | h
    · simpa using hdistinct
    · exact hsmaller smaller h hbefore
  | case3 width hge => exact ⟨by omega, .inr rfl, fun smaller h hlt => by omega⟩

/-! ### Printed identities -/

namespace HexId

variable {kind : IdKind} (id : HexId kind)

theorem forall_isHexChar : ∀ c ∈ id.body.toList, isHexChar c = true := by
  have h := id.isHex_body
  simp only [isHex, Bool.and_eq_true] at h
  exact all_eq_true.1 h.2

theorem length_body_le : id.body.toList.length ≤ fullWidth := by
  have h := id.isHex_body
  simp only [isHex, Bool.and_eq_true, decide_eq_true_eq] at h
  exact h.1.2

theorem body_ne_nil : id.body.toList ≠ [] := by
  have h := id.isHex_body
  simp only [isHex, Bool.and_eq_true, Bool.not_eq_true', List.isEmpty_eq_false_iff] at h
  exact h.1.1

end HexId

theorem utf8Size_of_isHexChar {c : Char} (h : isHexChar c = true) : c.utf8Size = 1 := by
  rw [Char.utf8Size_eq_one_iff]
  simp only [isHexChar, Bool.or_eq_true, Bool.and_eq_true, decide_eq_true_eq, Char.le_def] at h
  rcases h with ⟨-, h⟩ | ⟨-, h⟩ <;> exact UInt32.le_trans h (by decide)

theorem isWhitespace_of_isHexChar {c : Char} (h : isHexChar c = true) :
    Link.isWhitespace c = false := by
  simp only [isHexChar, Bool.or_eq_true, Bool.and_eq_true, decide_eq_true_eq, Char.le_def,
    UInt32.le_iff_toNat_le] at h
  simp only [Link.isWhitespace, Char.toNat, Bool.or_eq_false_iff, Bool.and_eq_false_imp,
    decide_eq_true_eq, decide_eq_false_iff_not]
  have h0 : '0'.val.toNat = 48 := rfl
  have h9 : '9'.val.toNat = 57 := rfl
  have ha : 'a'.val.toNat = 97 := rfl
  have hf : 'f'.val.toNat = 102 := rfl
  omega

theorem firstBytes_eq_take {text : List Char} (h : ∀ c ∈ text, isHexChar c = true)
    (hwidth : width ≤ text.length) : firstBytes width text = some (text.take width) := by
  induction text generalizing width with
  | nil => simp_all [firstBytes]
  | cons c text ih =>
    cases width with
    | zero => rfl
    | succ width =>
      have hrest := ih (fun d hd => h d (mem_cons_of_mem c hd)) (Nat.le_of_succ_le_succ hwidth)
      simp [firstBytes, utf8Size_of_isHexChar (h c mem_cons_self), hrest]

theorem byteLength_eq_length {text : List Char} (h : ∀ c ∈ text, isHexChar c = true) :
    byteLength text = text.length := by
  rw [byteLength, map_congr_left fun c hc => utf8Size_of_isHexChar (h c hc)]
  simp

@[simp]
theorem truncate_body {kind : IdKind} (id : HexId kind) (width : ℕ) :
    truncate id.body width = id.body.toList.take width := by
  rw [truncate, byteLength_eq_length id.forall_isHexChar,
    firstBytes_eq_take id.forall_isHexChar (min_le_right _ _), Option.getD_some,
    take_eq_take_iff]
  omega

/-- The shorter identity a cut leaves. -/
def HexId.cut {kind : IdKind} (id : HexId kind) {width : ℕ} (hwidth : 0 < width) :
    HexId kind where
  body := String.ofList (id.body.toList.take width)
  isHex_body := by
    have hlength := id.length_body_le
    have hne := id.body_ne_nil
    simp only [isHex, String.toList_ofList, List.length_take, Bool.and_eq_true,
      Bool.not_eq_true', List.isEmpty_eq_false_iff, decide_eq_true_eq, List.all_eq_true]
    refine ⟨⟨?_, by omega⟩, fun c hc => id.forall_isHexChar c (List.mem_of_mem_take hc)⟩
    rw [Ne, List.take_eq_nil_iff, not_or]
    exact ⟨by omega, hne⟩

/-! ### References -/

/-- What kind of thing a reference names. -/
inductive ReferenceKind
  | plan
  | recovery
  | unqualified

/-- A parsed reference: a kind and a hexadecimal body. -/
structure Reference where
  kind : ReferenceKind
  body : List Char

namespace Reference

/-- The refusal of a text that is not an identity at all. -/
def notAnIdentity (kind : ReferenceKind) (text : String) : ErrorValue :=
  match kind with
  | .recovery => .assetNotFound text
  | _ => .planNotFound text

/-- The kind a marker tells, and what stands behind it. -/
def marked (text : List Char) : ReferenceKind × List Char :=
  match stripMarker IdKind.plan.marker.toList text with
  | some body => (.plan, body)
  | none =>
    match stripMarker IdKind.recoveryAsset.marker.toList text with
    | some body => (.recovery, body)
    | none => (.unqualified, text)

/-- Reads a text as a reference. -/
def parse (text : String) : Except ErrorValue Reference :=
  let (kind, body) := marked (trim text.toList)
  let parsed :=
    match kind with
    | .recovery => (HexId.parse (String.ofList body) : Option RecoveryAssetId).isSome
    | _ => (HexId.parse (String.ofList body) : Option PlanId).isSome
  if parsed then .ok ⟨kind, body⟩ else .error (notAnIdentity kind text)

/-- Whether a reference may name a plan. -/
def namesAPlan (reference : Reference) : Bool :=
  match reference.kind with
  | .plan => true
  | .recovery => false
  | .unqualified => true

end Reference

/-- The identities in the plan table of a store. -/
abbrev PlanTable : Type :=
  List String

namespace PlanTable

/-- The identities that start with a text, each once and in order. -/
def matchingIds (table : PlanTable) (start : List Char) : List String :=
  let found := table.filter fun id => id.toList.take (byteLength start) = start
  found.dedup.insertionSort (· ≤ ·)

/-- Resolves a reference to exactly one plan. -/
def resolve (table : PlanTable) (reference : String) : Except ErrorValue PlanId := do
  let parsed ← Reference.parse reference
  if !parsed.namesAPlan then
    .error (.planNotFound reference)
  else
    match table.matchingIds parsed.body with
    | [] => .error (.planNotFound reference)
    | [id] =>
      match parse id with
      | some plan => .ok plan
      | none => .error (.recordMalformed "plan_id")
    | candidates => .error (.planReferenceAmbiguous reference candidates.length)

end PlanTable

theorem stripMarker_append (marker text : List Char) :
    stripMarker marker (marker ++ text) = some text := by
  simp [stripMarker]

/-- **A printed reference is read back to the cut identity.** -/
theorem Reference.parse_renderPlan (plan : PlanId) (hwidth : 0 < width) :
    Reference.parse (renderPlan plan width) = .ok ⟨.plan, plan.body.toList.take width⟩ := by
  have hcut := (plan.cut hwidth).isHex_body
  have htrim : trim (IdKind.plan.marker.toList ++ plan.body.toList.take width) =
      IdKind.plan.marker.toList ++ plan.body.toList.take width := by
    refine Separated.trimmed_eq ?_ ?_
    · intro c hc
      rw [head?_append_of_ne_nil _ (by decide)] at hc
      obtain rfl : 'p' = c := Option.some.inj hc
      decide
    · intro c hc
      rw [getLast?_append_of_ne_nil _ (by
        simpa [cut] using (plan.cut hwidth).body_ne_nil)] at hc
      exact isWhitespace_of_isHexChar
        (plan.forall_isHexChar c (List.mem_of_mem_take (List.mem_of_mem_getLast? hc)))
  have hparse : (HexId.parse (String.ofList (plan.body.toList.take width)) : Option PlanId) =
      some (plan.cut hwidth) :=
    HexId.parse_body (plan.cut hwidth)
  simp only [Reference.parse, renderPlan, truncate_body, String.toList_ofList, htrim, marked,
    stripMarker_append, hparse, Option.isSome_some, if_true]

namespace PlanTable

variable {table : PlanTable}

theorem mem_matchingIds {start : List Char} {id : String} :
    id ∈ table.matchingIds start ↔ id ∈ table ∧ id.toList.take (byteLength start) = start := by
  simp [matchingIds]

theorem nodup_matchingIds (start : List Char) : (table.matchingIds start).Nodup :=
  (perm_insertionSort _ _).nodup_iff.2 (nodup_dedup _)

theorem resolve_renderPlan (plan : PlanId) (hwidth : 0 < width) :
    table.resolve (renderPlan plan width) =
      match table.matchingIds (plan.body.toList.take width) with
      | [] => .error (.planNotFound (renderPlan plan width))
      | [id] =>
        match parse id with
        | some plan => .ok plan
        | none => .error (.recordMalformed "plan_id")
      | candidates => .error (.planReferenceAmbiguous (renderPlan plan width) candidates.length) := by
  rw [resolve, Reference.parse_renderPlan plan hwidth]
  rfl

theorem mem_matchingIds_cut {plan : PlanId} {id : String} :
    id ∈ table.matchingIds (plan.body.toList.take width) ↔
      id ∈ table ∧ plan.body.toList.take width <+: id.toList := by
  rw [mem_matchingIds, byteLength_eq_length fun c hc =>
    plan.forall_isHexChar c (mem_of_mem_take hc), prefix_iff_eq_take, eq_comm]

/-- **A printed reference is resolved to its plan exactly when it starts no other identity.** -/
theorem resolve_renderPlan_iff {plans : List PlanId} {plan : PlanId} (hplan : plan ∈ plans)
    (hwidth : 0 < width) :
    resolve (plans.map body) (renderPlan plan width) = .ok plan ↔
      ∀ other ∈ plans, plan.body.toList.take width <+: other.body.toList → other = plan := by
  rw [resolve_renderPlan plan hwidth]
  have hmem : ∀ id, id ∈ matchingIds (plans.map body) (plan.body.toList.take width) ↔
      id ∈ plans.map body ∧ plan.body.toList.take width <+: id.toList :=
    fun id => mem_matchingIds_cut
  have hnodup :
      (matchingIds (plans.map body) (plan.body.toList.take width)).Nodup :=
    nodup_matchingIds _
  generalize matchingIds (plans.map body) (plan.body.toList.take width) = found at *
  have hown : plan.body ∈ found :=
    (hmem _).2 ⟨mem_map_of_mem hplan, take_prefix _ _⟩
  constructor
  · intro hresolve other hother hstart
    have hfound := (hmem _).2 ⟨mem_map_of_mem hother, hstart⟩
    match found, hown, hfound, hresolve with
    | [id], hown, hfound, _ =>
      rw [List.mem_singleton] at hown hfound
      exact HexId.ext (hfound.trans hown.symm)
  · intro hsole
    have heq : found = [plan.body] := by
      refine perm_singleton.1 ((perm_ext_iff_of_nodup hnodup
        (nodup_singleton _)).2 fun id => ⟨fun hid => ?_, fun hid => ?_⟩)
      · obtain ⟨hid, hstart⟩ := (hmem id).1 hid
        obtain ⟨other, hother, rfl⟩ := mem_map.1 hid
        rw [hsole other hother hstart]
        exact mem_singleton_self _
      · rwa [mem_singleton.1 hid]
    simp [heq]

/-- **Printed references resolve.** Among distinct identities of full width, a reference printed
at the computed width is resolved to its plan, and no smaller width does that for all plans. -/
theorem printed_resolves (plans : List PlanId) (hdistinct : plans.Nodup)
    (hfull : ∀ plan ∈ plans, plan.body.toList.length = fullWidth) :
    (∀ plan ∈ plans,
      resolve (plans.map body)
        (renderPlan plan (planReferenceWidth (plans.map body))) = .ok plan) ∧
    ∀ width, shortWidth ≤ width → width < planReferenceWidth (plans.map body) →
      ¬ ∀ plan ∈ plans, resolve (plans.map body) (renderPlan plan width) = .ok plan := by
  obtain ⟨hle, hfound, hsmaller⟩ :=
    widened_spec (plans.map body) (show max shortWidth 1 ≤ fullWidth by decide)
  change max shortWidth 1 ≤ planReferenceWidth _ at hle
  change distinctAt _ (planReferenceWidth _) = true ∨ planReferenceWidth _ = fullWidth at hfound
  -- a reference of a plan starts another identity exactly when both are cut alike
  have hstart : ∀ plan ∈ plans, ∀ other ∈ plans, ∀ width,
      (plan.body.toList.take width <+: other.body.toList ↔
        truncate plan.body width = truncate other.body width) := by
    intro plan hplan other hother width
    rw [prefix_iff_eq_take, length_take, hfull plan hplan, ← hfull other hother,
      truncate_body, truncate_body, ← take_eq_take_min]
  have hcut : ∀ width, 0 < width → ((∀ plan ∈ plans,
      resolve (plans.map body) (renderPlan plan width) = .ok plan) ↔
        distinctAt (plans.map body) width = true) := by
    intro width hwidth
    rw [distinctAt_iff, List.map_map, nodup_map_iff_inj_on hdistinct]
    refine ⟨fun h plan hplan other hother heq => ?_, fun h plan hplan => ?_⟩
    · exact ((resolve_renderPlan_iff hplan hwidth).1 (h plan hplan) other hother
        ((hstart plan hplan other hother width).2 heq)).symm
    · refine (resolve_renderPlan_iff hplan hwidth).2 fun other hother hprefix' => ?_
      exact h other hother plan hplan ((hstart plan hplan other hother width).1 hprefix').symm
  refine ⟨?_, fun width hshort hlt h => ?_⟩
  · refine (hcut _ (by unfold shortWidth at hle; omega)).2 ?_
    rcases hfound with hfound | hfound
    · exact hfound
    · rw [hfound, distinctAt_iff, List.map_map, List.nodup_map_iff_inj_on hdistinct]
      intro plan hplan other hother heq
      simp only [Function.comp_apply, truncate_body] at heq
      rw [take_of_length_le (hfull plan hplan).le,
        take_of_length_le (hfull other hother).le] at heq
      exact HexId.ext (String.toList_inj.1 heq)
  · have hpos : 0 < width := by unfold shortWidth at hshort; omega
    have hdistinct := (hcut width hpos).1 h
    rw [hsmaller width (by unfold shortWidth at hshort ⊢; omega) hlt] at hdistinct
    exact Bool.false_ne_true hdistinct

/-- Two identities that share four characters are printed with five. -/
theorem printed_resolves_near :
    let near : List PlanId := [⟨"a82f000000000000", by decide⟩, ⟨"a82f111111111111", by decide⟩]
    planReferenceWidth (near.map body) = 5 ∧
    (∀ plan ∈ near,
      resolve (near.map body)
        (renderPlan plan (planReferenceWidth (near.map body))) = .ok plan) ∧
    ∀ width, shortWidth ≤ width → width < planReferenceWidth (near.map body) →
      ¬ ∀ plan ∈ near, resolve (near.map body) (renderPlan plan width) = .ok plan := by
  intro near
  have hdistinct : near.Nodup := by decide
  have hfull : ∀ plan ∈ near, plan.body.toList.length = fullWidth := by decide
  have h := printed_resolves near hdistinct hfull
  refine ⟨?_, h⟩
  rw [planReferenceWidth, shortestUniquePrefixes]
  have h4 : distinctAt (near.map body) 4 = false := by decide +kernel
  have h5 : distinctAt (near.map body) 5 = true := by decide +kernel
  simp [widened, shortWidth, fullWidth, h4, h5]

end PlanTable

end OnoSendai
