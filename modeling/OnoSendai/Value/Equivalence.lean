import OnoSendai.Lib.Buckets
import OnoSendai.Value.SameData

/-!
# Holding the same data as an equivalence

On values without a NaN, holding the same data is reflexive and symmetric. It is transitive as far
as the equality of their decimals is: decimals that fit no common scale are compared as
floating-point numbers, and one of them can be equal to two that differ.
-/

namespace OnoSendai

open List

/-- Whether a relation is an equivalence on the members of a set. -/
structure EquivalenceOn {α : Type} (relation : α → α → Prop) (member : α → Prop) : Prop where
  refl : ∀ a, member a → relation a a
  symm : ∀ a b, member a → member b → relation a b → relation b a
  trans : ∀ a b c, member a → member b → member c → relation a b → relation b c → relation a c

namespace Value

/-! ### Values and what they hold -/

/-- The identity of the object an error is about. -/
def targetEntries : Option (ValueRef Value) → List (String × Value)
  | some (.object _ identity) => identity
  | _ => []

/-- The values an error holds, without those of the errors it was raised from. -/
def detailParts (detail : ErrorDetail Value) : List Value :=
  (targetEntries detail.target).map Prod.snd ++ detail.metadata.map Prod.snd

/-- The values a value holds. -/
def parts : Value → List Value
  | .list items => items
  | .map entries => entries.map Prod.snd
  | .record _ fields extra _ => fields ++ extra.map Prod.snd
  | .error detail causes => (detail :: causes).flatMap detailParts
  | _ => []

/-- No map of an error holds a key twice. -/
def KeysOnce (detail : ErrorDetail Value) : Prop :=
  ((targetEntries detail.target).map Prod.fst).Nodup ∧ (detail.metadata.map Prod.fst).Nodup

/-- A value is no NaN and its own maps hold no key twice; a decimal is of a set. -/
def Sound (decimals : Decimal → Prop) : Value → Prop
  | .float bits | .percent bits => Binary64.isNaN bits = false
  | .decimal mantissa scale => decimals (.ofParts mantissa scale)
  | .map entries => (entries.map Prod.fst).Nodup
  | .record _ _ extra provenance => (extra.map Prod.fst).Nodup ∧
      ∀ confidence ∈ provenance.confidence, Binary64.isNaN confidence = false
  | .error detail causes => ∀ held ∈ detail :: causes, KeysOnce held
  | _ => True

/-- A value is sound, and all that it holds at any depth. -/
inductive Whole (decimals : Decimal → Prop) : Value → Prop
  | mk {value : Value} (sound : Sound decimals value)
      (whole : ∀ part ∈ value.parts, Whole decimals part) : Whole decimals value

theorem Whole.sound {decimals : Decimal → Prop} {value : Value} (h : Whole decimals value) :
    Sound decimals value := by
  cases h
  assumption

theorem Whole.part {decimals : Decimal → Prop} {value part : Value} (h : Whole decimals value)
    (hpart : part ∈ value.parts) : Whole decimals part := by
  cases h with
  | mk _ whole => exact whole part hpart

/-! ### Maps and lists -/

section Relations

variable {R S T : Value → Value → Prop} {as bs cs : List (String × Value)}

/-- Maps that hold related values under the same keys. -/
def MapRel (R : Value → Value → Prop) (as bs : List (String × Value)) : Prop :=
  as.length = bs.length ∧ ∀ entry ∈ as, ∃ found, bs.lookup entry.1 = some found ∧ R entry.2 found

theorem MapRel.refl (hkeys : (as.map Prod.fst).Nodup) (h : ∀ a ∈ as.map Prod.snd, R a a) :
    MapRel R as as :=
  ⟨rfl, fun entry hentry => ⟨entry.2, (Keyed.mem_iff_lookup hkeys).1 hentry,
    h entry.2 (mem_map_of_mem hentry)⟩⟩

/-- Of maps as large as each other, each holds the keys of the other. -/
theorem MapRel.symm (hkeys : (as.map Prod.fst).Nodup) (hothers : (bs.map Prod.fst).Nodup)
    (h : ∀ a ∈ as.map Prod.snd, ∀ b ∈ bs.map Prod.snd, R a b → S b a) (hrel : MapRel R as bs) :
    MapRel S bs as := by
  refine ⟨hrel.1.symm, fun other hother => ?_⟩
  have hsubset : as.map Prod.fst ⊆ bs.map Prod.fst := by
    intro key hkey
    obtain ⟨entry, hentry, rfl⟩ := mem_map.1 hkey
    obtain ⟨found, hfound, -⟩ := hrel.2 entry hentry
    exact mem_map.2 ⟨_, (Keyed.mem_iff_lookup hothers).2 hfound, rfl⟩
  have hperm := (subperm_of_subset hkeys hsubset).perm_of_length_le (by simp [hrel.1])
  obtain ⟨entry, hentry, hkey⟩ := mem_map.1 (hperm.mem_iff.2 (mem_map_of_mem hother))
  obtain ⟨found, hfound, hvalue⟩ := hrel.2 entry hentry
  rw [hkey, (Keyed.mem_iff_lookup hothers).1 hother, Option.some.injEq] at hfound
  refine ⟨entry.2, hkey ▸ (Keyed.mem_iff_lookup hkeys).1 hentry, ?_⟩
  exact h _ (mem_map_of_mem hentry) _ (mem_map_of_mem hother) (hfound ▸ hvalue)

theorem MapRel.trans (hothers : (bs.map Prod.fst).Nodup) (hlast : (cs.map Prod.fst).Nodup)
    (h : ∀ a ∈ as.map Prod.snd, ∀ b ∈ bs.map Prod.snd, ∀ c ∈ cs.map Prod.snd,
      R a b → S b c → T a c) (hone : MapRel R as bs) (hother : MapRel S bs cs) :
    MapRel T as cs := by
  refine ⟨hone.1.trans hother.1, fun entry hentry => ?_⟩
  obtain ⟨b, hb, hab⟩ := hone.2 entry hentry
  have hbmem := (Keyed.mem_iff_lookup hothers).2 hb
  obtain ⟨c, hc, hbc⟩ := hother.2 _ hbmem
  have hcmem := (Keyed.mem_iff_lookup hlast).2 hc
  exact ⟨c, hc, h _ (mem_map_of_mem hentry) b (mem_map.2 ⟨_, hbmem, rfl⟩) c
    (mem_map.2 ⟨_, hcmem, rfl⟩) hab hbc⟩

end Relations

section Lists

variable {α : Type} {R S T : α → α → Prop} {as bs cs : List α}

theorem forall₂_symm (h : ∀ a ∈ as, ∀ b ∈ bs, R a b → S b a) (hrel : Forall₂ R as bs) :
    Forall₂ S bs as := by
  induction hrel with
  | nil => exact .nil
  | cons hab _ ih =>
    exact .cons (h _ mem_cons_self _ mem_cons_self hab)
      (ih fun a ha b hb => h a (mem_cons_of_mem _ ha) b (mem_cons_of_mem _ hb))

theorem forall₂_trans (h : ∀ a ∈ as, ∀ b ∈ bs, ∀ c ∈ cs, R a b → S b c → T a c)
    (hone : Forall₂ R as bs) (hother : Forall₂ S bs cs) : Forall₂ T as cs := by
  induction hone generalizing cs with
  | nil => cases hother; exact .nil
  | cons hab _ ih =>
    cases hother with
    | cons hbc hrest =>
      refine .cons (h _ mem_cons_self _ mem_cons_self _ mem_cons_self hab hbc)
        (ih (fun a ha b hb c hc => ?_) hrest)
      exact h a (mem_cons_of_mem _ ha) b (mem_cons_of_mem _ hb) c
        (mem_cons_of_mem _ hc)

end Lists

/-! ### Equality, kind by kind -/

/-- Provenances are equal in everything but their confidence, which is compared as a number. -/
theorem provenance_eq_iff {p q : Provenance} : p.eq q = true ↔
    { p with confidence := none } = { q with confidence := none } ∧
      List.Forall₂ (fun a b => Binary64.partialCmp a b = some .eq) p.confidence.toList
        q.confidence.toList := by
  obtain ⟨provider, observed, source, link, schema, confidence, adapter⟩ := p
  obtain ⟨provider', observed', source', link', schema', confidence', adapter'⟩ := q
  cases confidence <;> cases confidence' <;> simp [Provenance.eq] <;> tauto

/-- What an error is about, without the identity of an object. -/
def targetFrame : Option (ValueRef Value) → Option (List PathComponent ⊕ String ⊕ SchemaId)
  | none => none
  | some (.path content) => some (.inl (pathComponents content))
  | some (.name name) => some (.inr (.inl name))
  | some (.object schema _) => some (.inr (.inr schema))

section Equal

variable (powi : ℕ → UInt64)

/-- Equality as a relation. -/
def Equal (a b : Value) : Prop :=
  eq powi a b = true

/-- Errors of equal parts, without the errors they were raised from. -/
def DetailRel (x y : ErrorDetail Value) : Prop :=
  (x.error, targetFrame x.target, x.help, x.retryable) =
      (y.error, targetFrame y.target, y.help, y.retryable) ∧
    MapRel (Equal powi) (targetEntries x.target) (targetEntries y.target) ∧
      MapRel (Equal powi) x.metadata y.metadata

/-- Equal values, kind by kind. -/
inductive Corresponds : Value → Value → Prop
  | outright (value : Value) (h : eq powi value value = true) : Corresponds value value
  | float {a b : UInt64} (h : Binary64.partialCmp a b = some .eq) :
      Corresponds (.float a) (.float b)
  | percent {a b : UInt64} (h : Binary64.partialCmp a b = some .eq) :
      Corresponds (.percent a) (.percent b)
  | decimal {m n : ℤ} {s t : ℕ} (h : (Decimal.ofParts m s).eq powi (.ofParts n t) = true) :
      Corresponds (.decimal m s) (.decimal n t)
  | path {a b : List UInt8} (h : pathComponents a = pathComponents b) :
      Corresponds (.path a) (.path b)
  | list {as bs : List Value} (h : Forall₂ (Equal powi) as bs) :
      Corresponds (.list as) (.list bs)
  | map {as bs : List (String × Value)} (h : MapRel (Equal powi) as bs) :
      Corresponds (.map as) (.map bs)
  | record {schema : Schema} {f g : List Value} {e d : List (String × Value)} {p q : Provenance}
      (hfields : Forall₂ (Equal powi) f g) (hextra : MapRel (Equal powi) e d)
      (hprovenance : p.eq q = true) : Corresponds (.record schema f e p) (.record schema g d q)
  | error {x y : ErrorDetail Value} {causes others : List (ErrorDetail Value)}
      (h : Forall₂ (DetailRel powi) (x :: causes) (y :: others)) :
      Corresponds (.error x causes) (.error y others)

end Equal

section Equivalence

variable {powi : ℕ → UInt64} {a b c : Value}

theorem eqTarget_iff {s t : Option (ValueRef Value)} : eqTarget powi s t = true ↔
    targetFrame s = targetFrame t ∧ MapRel (Equal powi) (targetEntries s) (targetEntries t) := by
  have hmaps : ∀ as bs : List (String × Value),
      (as.length == bs.length && eqEntries powi as bs) = true ↔ MapRel (Equal powi) as bs :=
    fun _ _ => eqMaps_iff
  rcases s with _ | s <;> rcases t with _ | t
  · simp [eqTarget, targetFrame, targetEntries, MapRel]
  · cases t <;> simp [eqTarget, targetFrame]
  · cases s <;> simp [eqTarget, targetFrame]
  · cases s <;> cases t <;> simp only [eqTarget, targetFrame, targetEntries, Bool.and_eq_true,
      decide_eq_true_eq, beq_iff_eq, Option.some.injEq, Sum.inl.injEq, Sum.inr.injEq, reduceCtorEq,
      false_and, Bool.false_eq_true] <;> simp [← hmaps, eqEntries]

theorem eqDetail_iff {x y : ErrorDetail Value} : eqDetail powi x y = true ↔ DetailRel powi x y := by
  obtain ⟨error, target, help, retryable, metadata⟩ := x
  obtain ⟨error', target', help', retryable', metadata'⟩ := y
  have hmaps : (metadata.length == metadata'.length && eqEntries powi metadata metadata') = true ↔
      MapRel (Equal powi) metadata metadata' := eqMaps_iff
  rw [eqDetail, Bool.and_eq_true, hmaps]
  simp only [Bool.and_eq_true, eqTarget_iff, decide_eq_true_eq, beq_iff_eq, DetailRel,
    Prod.mk.injEq]
  tauto

theorem eqDetails_iff {as bs : List (ErrorDetail Value)} :
    eqDetails powi as bs = true ↔ Forall₂ (DetailRel powi) as bs := by
  induction as generalizing bs with
  | nil => cases bs <;> simp [eqDetails]
  | cons x as ih => cases bs <;> simp [eqDetails, eqDetail_iff, ih]

theorem eq_iff_corresponds : eq powi a b = true ↔ Corresponds powi a b := by
  constructor
  · intro h
    cases a <;> cases b <;> try exact absurd h Bool.false_ne_true
    case float.float => exact .float (beq_iff_eq.1 h)
    case percent.percent => exact .percent (beq_iff_eq.1 h)
    case decimal.decimal => exact .decimal h
    case path.path => exact .path (of_decide_eq_true h)
    case list.list => exact .list (eqLists_iff.1 h)
    case map.map => exact .map (eqMaps_iff.1 h)
    case record.record =>
      obtain ⟨rfl, hfields, hextra, hprovenance⟩ := eq_record_iff.1 h
      exact .record (eqLists_iff.1 hfields) (eqMaps_iff.1 hextra) hprovenance
    case error.error x causes y others =>
      have hboth : (eqDetail powi x y && eqDetails powi causes others) = true := h
      rw [Bool.and_eq_true, eqDetail_iff, eqDetails_iff] at hboth
      exact .error (.cons hboth.1 hboth.2)
    all_goals
      have hself := h
      simp only [eq, Bool.and_eq_true, beq_iff_eq, decide_eq_true_eq] at h
      first
        | subst h
          exact .outright _ hself
        | obtain ⟨rfl, rfl⟩ := h
          exact .outright _ hself
  · intro h
    cases h with
    | outright _ h => exact h
    | float h => exact beq_iff_eq.2 h
    | percent h => exact beq_iff_eq.2 h
    | decimal h => exact h
    | path h => exact decide_eq_true h
    | list h => exact eqLists_iff.2 h
    | map h => exact eqMaps_iff.2 h
    | record hfields hextra hprovenance =>
      exact eq_record_iff.2 ⟨rfl, eqLists_iff.2 hfields, eqMaps_iff.2 hextra, hprovenance⟩
    | error h =>
      cases h with
      | cons hdetail hcauses =>
        show (eqDetail powi _ _ && eqDetails powi _ _) = true
        rw [Bool.and_eq_true, eqDetail_iff, eqDetails_iff]
        exact ⟨hdetail, hcauses⟩

variable {decimals : Decimal → Prop}

theorem mem_parts_record {schema : Schema} {fields : List Value} {extra : List (String × Value)}
    {provenance : Provenance} {part : Value} :
    part ∈ (Value.record schema fields extra provenance).parts ↔
      part ∈ fields ∨ part ∈ extra.map Prod.snd :=
  mem_append

theorem mem_parts_error {detail held : ErrorDetail Value} {causes : List (ErrorDetail Value)}
    {part : Value} (hheld : held ∈ detail :: causes)
    (h : part ∈ (targetEntries held.target).map Prod.snd ∨ part ∈ held.metadata.map Prod.snd) :
    part ∈ (Value.error detail causes).parts :=
  mem_flatMap.2 ⟨held, hheld, mem_append.2 h⟩

/-! ### Equality is an equivalence -/

theorem equal_refl (h : Whole decimals a) : Equal powi a a := by
  induction h with
  | @mk value sound _ ih =>
    rw [Equal, eq_iff_corresponds]
    cases value with
    | float bits => exact .float (Binary64.partialCmp_eq_some_eq_iff.2 ⟨sound, sound, rfl⟩)
    | percent bits => exact .percent (Binary64.partialCmp_eq_some_eq_iff.2 ⟨sound, sound, rfl⟩)
    | decimal mantissa scale => exact .decimal (Decimal.eq_self _ _)
    | path content => exact .path rfl
    | list items => exact .list (forall₂_same.2 ih)
    | map entries => exact .map (.refl sound ih)
    | record schema fields extra provenance =>
      refine .record (forall₂_same.2 fun part hpart => ih part (mem_parts_record.2 (.inl hpart)))
        (.refl sound.1 fun part hpart => ih part (mem_parts_record.2 (.inr hpart)))
        (provenance_eq_iff.2 ⟨rfl, List.forall₂_same.2 fun bits hbits => ?_⟩)
      have hnumber := sound.2 bits (Option.mem_toList.1 hbits)
      exact Binary64.partialCmp_eq_some_eq_iff.2 ⟨hnumber, hnumber, rfl⟩
    | error detail causes =>
      refine .error (forall₂_same.2 fun held hheld => ⟨rfl,
        .refl (sound held hheld).1 fun part hpart => ?_,
        .refl (sound held hheld).2 fun part hpart => ?_⟩)
      · exact ih part (mem_parts_error hheld (.inl hpart))
      · exact ih part (mem_parts_error hheld (.inr hpart))
    | _ => exact .outright _ (by simp [eq])

theorem partialCmp_eq_symm {x y : UInt64} (h : Binary64.partialCmp x y = some .eq) :
    Binary64.partialCmp y x = some .eq := by
  rw [Binary64.partialCmp_swap, h]
  rfl

theorem partialCmp_eq_trans {x y z : UInt64} (h : Binary64.partialCmp x y = some .eq)
    (hnext : Binary64.partialCmp y z = some .eq) : Binary64.partialCmp x z = some .eq := by
  rw [Binary64.partialCmp_eq_some_eq_iff] at *
  exact ⟨h.1, hnext.2.1, h.2.2.trans hnext.2.2⟩

theorem provenance_symm {p q : Provenance} (h : p.eq q = true) : q.eq p = true := by
  rw [provenance_eq_iff] at *
  exact ⟨h.1.symm, forall₂_symm (fun _ _ _ _ => partialCmp_eq_symm) h.2⟩

theorem provenance_trans {p q r : Provenance} (h : p.eq q = true) (hnext : q.eq r = true) :
    p.eq r = true := by
  rw [provenance_eq_iff] at *
  refine ⟨h.1.trans hnext.1, forall₂_trans ?_ h.2 hnext.2⟩
  exact fun _ _ _ _ _ _ => partialCmp_eq_trans

theorem equal_symm (ha : Whole decimals a) (hb : Whole decimals b) (h : Equal powi a b) :
    Equal powi b a := by
  induction ha generalizing b with
  | @mk value sound _ ih =>
    have hpart : ∀ x ∈ value.parts, ∀ y ∈ b.parts, Equal powi x y → Equal powi y x :=
      fun x hx y hy => ih x hx (hb.part hy)
    have hsound := hb.sound
    rw [Equal, eq_iff_corresponds] at h ⊢
    cases h with
    | outright _ h => exact .outright _ h
    | float h => exact .float (partialCmp_eq_symm h)
    | percent h => exact .percent (partialCmp_eq_symm h)
    | decimal h => exact .decimal (by rwa [Decimal.eq_comm])
    | path h => exact .path h.symm
    | list h => exact .list (forall₂_symm hpart h)
    | map h => exact .map (h.symm sound hsound hpart)
    | record hfields hextra hprovenance =>
      exact .record
        (forall₂_symm (fun x hx y hy =>
          hpart x (mem_parts_record.2 (.inl hx)) y (mem_parts_record.2 (.inl hy))) hfields)
        (hextra.symm sound.1 hsound.1 fun x hx y hy =>
          hpart x (mem_parts_record.2 (.inr hx)) y (mem_parts_record.2 (.inr hy)))
        (provenance_symm hprovenance)
    | error h =>
      refine .error (forall₂_symm (fun x hx y hy hrel => ⟨hrel.1.symm,
        hrel.2.1.symm (sound x hx).1 (hsound y hy).1 fun one hone other hother => ?_,
        hrel.2.2.symm (sound x hx).2 (hsound y hy).2 fun one hone other hother => ?_⟩) h)
      · exact hpart one (mem_parts_error hx (.inl hone)) other (mem_parts_error hy (.inl hother))
      · exact hpart one (mem_parts_error hx (.inr hone)) other (mem_parts_error hy (.inr hother))

/-- Decimal equality is transitive on a set. -/
def TransitiveOn (powi : ℕ → UInt64) (decimals : Decimal → Prop) : Prop :=
  ∀ x y z, decimals x → decimals y → decimals z → x.eq powi y = true → y.eq powi z = true →
    x.eq powi z = true

theorem equal_trans (htrans : TransitiveOn powi decimals) (ha : Whole decimals a)
    (hb : Whole decimals b) (hc : Whole decimals c) (h : Equal powi a b) (hnext : Equal powi b c) :
    Equal powi a c := by
  induction ha generalizing b c with
  | @mk value sound _ ih =>
    have hpart : ∀ x ∈ value.parts, ∀ y ∈ b.parts, ∀ z ∈ c.parts, Equal powi x y →
        Equal powi y z → Equal powi x z :=
      fun x hx y hy z hz => ih x hx (hb.part hy) (hc.part hz)
    have hsound := hb.sound
    have hlast := hc.sound
    rw [Equal, eq_iff_corresponds] at h hnext ⊢
    cases h with
    | outright _ h => exact hnext
    | float h =>
      cases hnext with
      | outright => exact .float h
      | float hnext => exact .float (partialCmp_eq_trans h hnext)
    | percent h =>
      cases hnext with
      | outright => exact .percent h
      | percent hnext => exact .percent (partialCmp_eq_trans h hnext)
    | decimal h =>
      cases hnext with
      | outright => exact .decimal h
      | decimal hnext => exact .decimal (htrans _ _ _ sound hsound hlast h hnext)
    | path h =>
      cases hnext with
      | outright => exact .path h
      | path hnext => exact .path (h.trans hnext)
    | list h =>
      cases hnext with
      | outright => exact .list h
      | list hnext => exact .list (forall₂_trans hpart h hnext)
    | map h =>
      cases hnext with
      | outright => exact .map h
      | map hnext => exact .map (h.trans hsound hlast hpart hnext)
    | record hfields hextra hprovenance =>
      cases hnext with
      | outright => exact .record hfields hextra hprovenance
      | record hfields' hextra' hprovenance' =>
        exact .record
          (forall₂_trans (fun x hx y hy z hz => hpart x (mem_parts_record.2 (.inl hx)) y
            (mem_parts_record.2 (.inl hy)) z (mem_parts_record.2 (.inl hz))) hfields hfields')
          (hextra.trans hsound.1 hlast.1 (fun x hx y hy z hz => hpart x
            (mem_parts_record.2 (.inr hx)) y (mem_parts_record.2 (.inr hy)) z
            (mem_parts_record.2 (.inr hz))) hextra')
          (provenance_trans hprovenance hprovenance')
    | error h =>
      cases hnext with
      | outright => exact .error h
      | error hnext =>
        refine .error (forall₂_trans (fun x hx y hy z hz hrel hrel' => ⟨hrel.1.trans hrel'.1,
          hrel.2.1.trans (hsound y hy).1 (hlast z hz).1 (fun one hone two htwo three hthree => ?_)
            hrel'.2.1,
          hrel.2.2.trans (hsound y hy).2 (hlast z hz).2 (fun one hone two htwo three hthree => ?_)
            hrel'.2.2⟩) h hnext)
        · exact hpart one (mem_parts_error hx (.inl hone)) two (mem_parts_error hy (.inl htwo))
            three (mem_parts_error hz (.inl hthree))
        · exact hpart one (mem_parts_error hx (.inr hone)) two (mem_parts_error hy (.inr htwo))
            three (mem_parts_error hz (.inr hthree))

/-! ### Holding the same data is one -/

theorem whole_parts_record {schema : Schema} {fields : List Value} {extra : List (String × Value)}
    {provenance : Provenance} (h : Whole decimals (.record schema fields extra provenance)) :
    Whole decimals (.list fields) ∧ Whole decimals (.map extra) :=
  ⟨.mk trivial fun _ hpart => h.part (mem_parts_record.2 (.inl hpart)),
    .mk h.sound.1 fun _ hpart => h.part (mem_parts_record.2 (.inr hpart))⟩

/-- Values that hold the same data: equal ones, and lists, maps and records part by part. -/
inductive HoldsSame (powi : ℕ → UInt64) : Value → Value → Prop
  | leaf {a b : Value} (ha : a.IsLeaf) (hb : b.IsLeaf) (h : Equal powi a b) : HoldsSame powi a b
  | list {as bs : List Value} (h : Forall₂ (fun a b => sameData powi a b = true) as bs) :
      HoldsSame powi (.list as) (.list bs)
  | map {as bs : List (String × Value)}
      (h : Forall₂ (fun a b => a.1 = b.1 ∧ sameData powi a.2 b.2 = true) as bs) :
      HoldsSame powi (.map as) (.map bs)
  | record {s t : Schema} {f g : List Value} {e d : List (String × Value)} {p q : Provenance}
      (hid : s.id = t.id) (hfields : Equal powi (.list f) (.list g))
      (hextra : Equal powi (.map e) (.map d)) : HoldsSame powi (.record s f e p) (.record t g d q)

theorem sameData_iff_holdsSame : sameData powi a b = true ↔ HoldsSame powi a b := by
  constructor
  · intro h
    by_cases hleaf : a.IsLeaf
    · rw [sameData_of_isLeaf hleaf] at h
      have hcorresponds := eq_iff_corresponds.1 h
      refine .leaf hleaf ?_ h
      cases hcorresponds <;> exact hleaf
    · cases a <;> try exact absurd trivial hleaf
      all_goals cases b <;> try exact absurd h Bool.false_ne_true
      case list.list => exact .list (sameLists_iff.1 h)
      case map.map => exact .map (sameEntries_iff.1 h)
      case record.record s f e p t g d q =>
        have hparts : (decide (s.id = t.id) && eqLists powi f g && eqMaps powi e d) = true := h
        rw [Bool.and_eq_true, Bool.and_eq_true, decide_eq_true_eq] at hparts
        exact .record hparts.1.1 hparts.1.2 hparts.2
  · intro h
    cases h with
    | leaf ha _ h => rwa [sameData_of_isLeaf ha]
    | list h => exact sameLists_iff.2 h
    | map h => exact sameEntries_iff.2 h
    | @record s t f g e d p q hid hfields hextra =>
      show (decide (s.id = t.id) && eqLists powi f g && eqMaps powi e d) = true
      rw [Bool.and_eq_true, Bool.and_eq_true, decide_eq_true_eq]
      exact ⟨⟨hid, hfields⟩, hextra⟩

theorem sameData_refl (h : Whole decimals a) : sameData powi a a = true := by
  induction h with
  | @mk value sound whole ih =>
    rw [sameData_iff_holdsSame]
    have hwhole := Whole.mk sound whole
    cases value with
    | list items => exact .list (forall₂_same.2 ih)
    | map entries =>
      exact .map (forall₂_same.2 fun entry hentry =>
        ⟨rfl, ih entry.2 (mem_map_of_mem hentry)⟩)
    | record schema fields extra provenance =>
      obtain ⟨hfields, hextra⟩ := whole_parts_record hwhole
      exact .record rfl (equal_refl hfields) (equal_refl hextra)
    | _ => exact .leaf trivial trivial (equal_refl hwhole)

theorem sameData_symm (ha : Whole decimals a) (hb : Whole decimals b)
    (h : sameData powi a b = true) : sameData powi b a = true := by
  induction ha generalizing b with
  | @mk value sound whole ih =>
    rw [sameData_iff_holdsSame] at h ⊢
    have hwhole := Whole.mk sound whole
    cases h with
    | leaf ha' hb' h => exact .leaf hb' ha' (equal_symm hwhole hb h)
    | list h => exact .list (forall₂_symm (fun x hx y hy => ih x hx (hb.part hy)) h)
    | map h =>
      exact .map (forall₂_symm (fun x hx y hy hxy => ⟨hxy.1.symm, ih x.2 (mem_map_of_mem hx)
        (hb.part (mem_map_of_mem hy)) hxy.2⟩) h)
    | record hid hfields hextra =>
      obtain ⟨hf, he⟩ := whole_parts_record hwhole
      obtain ⟨hg, hd⟩ := whole_parts_record hb
      exact .record hid.symm (equal_symm hf hg hfields) (equal_symm he hd hextra)

theorem sameData_trans (htrans : TransitiveOn powi decimals) (ha : Whole decimals a)
    (hb : Whole decimals b) (hc : Whole decimals c) (h : sameData powi a b = true)
    (hnext : sameData powi b c = true) : sameData powi a c = true := by
  induction ha generalizing b c with
  | @mk value sound whole ih =>
    rw [sameData_iff_holdsSame] at h hnext ⊢
    have hwhole := Whole.mk sound whole
    cases h with
    | leaf ha' hb' h =>
      cases hnext with
      | leaf _ hc' hnext => exact .leaf ha' hc' (equal_trans htrans hwhole hb hc h hnext)
      | list | map | record => exact hb'.elim
    | list h =>
      cases hnext with
      | leaf hb' => exact hb'.elim
      | list hnext =>
        refine .list (forall₂_trans ?_ h hnext)
        exact fun x hx y hy z hz => ih x hx (hb.part hy) (hc.part hz)
    | map h =>
      cases hnext with
      | leaf hb' => exact hb'.elim
      | map hnext =>
        exact .map (forall₂_trans (fun x hx y hy z hz hxy hyz => ⟨hxy.1.trans hyz.1,
          ih x.2 (mem_map_of_mem hx) (hb.part (mem_map_of_mem hy))
            (hc.part (mem_map_of_mem hz)) hxy.2 hyz.2⟩) h hnext)
    | record hid hfields hextra =>
      cases hnext with
      | leaf hb' => exact hb'.elim
      | record hid' hfields' hextra' =>
        obtain ⟨hf, he⟩ := whole_parts_record hwhole
        obtain ⟨hg, hd⟩ := whole_parts_record hb
        obtain ⟨hk, hl⟩ := whole_parts_record hc
        exact .record (hid.trans hid') (equal_trans htrans hf hg hk hfields hfields')
          (equal_trans htrans he hd hl hextra hextra')

theorem whole_intoValue {number : Decimal} (h : decimals number) :
    Whole decimals number.intoValue := by
  refine .mk ?_ nofun
  show decimals (.ofParts number.mantissa number.scale)
  rwa [Decimal.ofParts, dif_pos ⟨number.mantissa.2, number.scale_le⟩]

theorem sameData_intoValue (x y : Decimal) :
    sameData powi x.intoValue y.intoValue = x.eq powi y := by
  show Decimal.eq powi (.ofParts x.mantissa x.scale) (.ofParts y.mantissa y.scale) = _
  rw [Decimal.ofParts, Decimal.ofParts, dif_pos ⟨x.mantissa.2, x.scale_le⟩,
    dif_pos ⟨y.mantissa.2, y.scale_le⟩]

/-- **Holding the same data is an equivalence** on the values without a NaN exactly as far as the
equality of their decimals is transitive. -/
theorem equivalenceOn_sameData_iff :
    EquivalenceOn (fun a b => sameData powi a b = true) (Whole decimals) ↔
      TransitiveOn powi decimals := by
  constructor
  · intro h x y z hx hy hz hxy hyz
    have htrans := h.trans _ _ _ (whole_intoValue hx) (whole_intoValue hy) (whole_intoValue hz)
    rw [sameData_intoValue, sameData_intoValue, sameData_intoValue] at htrans
    exact htrans hxy hyz
  · exact fun h => ⟨fun _ => sameData_refl, fun _ _ => sameData_symm, fun _ _ _ => sameData_trans h⟩

/-- Equality is transitive on decimals of which every two fit on a common scale, or are told apart
by the floating-point numbers. -/
theorem transitiveOn_of_exact (h : ∀ x y, decimals x → decimals y →
    x.Aligned y ∨ Decimal.ToldApart powi x y) : TransitiveOn powi decimals := by
  intro x y z hx hy hz hxy hyz
  rw [Decimal.eq_iff_toRat (h _ _ ‹_› ‹_›)] at *
  exact hxy.trans hyz

/-! ### Equality up to provenance, and an equivalence -/

/-- **Holding the same data is equality up to provenance but for two defects**, and an equivalence
but for a third. The two are one exactly where, of two values that are equal up to provenance and
the bodies of schemas, the maps are in one order and the records outright equal precisely when all
schemas agree. On values without a NaN it is an equivalence exactly as far as equality is transitive
on their decimals, which it is where every two fit a common scale or are told apart. -/
theorem sameData_iff_eq_unobserved_iff (h : a.KeysDistinct) :
    ((sameData powi a b = true ↔ eq powi a.unobserved b.unobserved = true) ↔
      (EqualUpToSchema powi a b → (InOrder powi a b ↔ SchemasAgree a b))) ∧
    (∀ decimals : Decimal → Prop,
      EquivalenceOn (fun a b => sameData powi a b = true) (Whole decimals) ↔
        TransitiveOn powi decimals) ∧
    ∀ decimals : Decimal → Prop, (∀ x y, decimals x → decimals y →
        x.Aligned y ∨ Decimal.ToldApart powi x y) →
      EquivalenceOn (fun a b => sameData powi a b = true) (Whole decimals) :=
  ⟨sameData_iff_unobserved_iff h, fun _ => equivalenceOn_sameData_iff,
    fun _ hexact => equivalenceOn_sameData_iff.2 (transitiveOn_of_exact hexact)⟩

end Equivalence

/-- A map of two entries. -/
def forwards : Value :=
  .map [("pid", .int 1), ("uid", .int 0)]

/-- The same map, built in the other order. -/
def backwards : Value :=
  .map [("uid", .int 0), ("pid", .int 1)]

theorem forwards_keysDistinct : forwards.KeysDistinct :=
  ⟨by decide, trivial, trivial, trivial⟩

/-- The two maps are told apart, and holding the same data is an equivalence on whole numbers of
cents. -/
theorem sameData_iff_eq_unobserved_iff_forwards :
    ((sameData (fun _ => 0) forwards backwards = true ↔
        eq (fun _ => 0) forwards.unobserved backwards.unobserved = true) ↔
      (EqualUpToSchema (fun _ => 0) forwards backwards →
        (InOrder (fun _ => 0) forwards backwards ↔ SchemasAgree forwards backwards))) ∧
    EquivalenceOn (fun a b => sameData (fun _ => 0) a b = true)
      (Whole fun number => number.scale = 2) := by
  have hboth := @sameData_iff_eq_unobserved_iff (fun _ => 0) _ backwards forwards_keysDistinct
  refine ⟨hboth.1, hboth.2.2 _ fun x y hx hy => .inl ?_⟩
  rw [Decimal.Aligned, hx, hy, Nat.sub_self, pow_zero, mul_one, mul_one]
  exact ⟨x.mantissa.2, y.mantissa.2⟩

/-- The powers of ten of two scales, as floating-point numbers. -/
def oneAndTen (exponent : ℕ) : UInt64 :=
  if exponent = 0 then 0x3FF0000000000000 else 0x4024000000000000

/-- Two maps that differ in their order do not hold the same data; and a decimal that fits no common
scale with two others holds the same as either of them, which differ. -/
theorem not_sameData_iff_eq_unobserved :
    (¬∀ (powi : ℕ → UInt64) (a b : Value), a.KeysDistinct → b.KeysDistinct →
      (sameData powi a b = true ↔ eq powi a.unobserved b.unobserved = true)) ∧
    ¬∀ powi : ℕ → UInt64, EquivalenceOn (fun a b => sameData powi a b = true)
      (Whole fun _ => True) := by
  refine ⟨fun h => ?_, fun h => ?_⟩
  · have hbackwards : backwards.KeysDistinct := ⟨by decide, trivial, trivial, trivial⟩
    have hsame := (h (fun _ => 0) forwards backwards forwards_keysDistinct hbackwards).2 (by decide)
    exact absurd hsame (by decide)
  · have hwhole : ∀ mantissa scale, Whole (fun _ => True) (.decimal mantissa scale) :=
      fun _ _ => .mk trivial nofun
    have hsame := (h oneAndTen).trans (.decimal 17014118346046923173168730371588410573 0)
      (.decimal (2 ^ 127 - 1) 1) (.decimal 17014118346046923173168730371588410574 0)
      (hwhole _ _) (hwhole _ _) (hwhole _ _) (by decide +kernel) (by decide +kernel)
    exact absurd hsame (by decide +kernel)

end Value

end OnoSendai
