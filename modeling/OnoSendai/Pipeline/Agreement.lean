import Mathlib.Data.List.Sort
import OnoSendai.Pipeline.Measure
import OnoSendai.Value.Exact

/-!
# Two ways to one measure

Whether `measure` in constant state and over the samples it holds agree: whether one has a record
when the other does, of the same counts, of sums that denote one quantity, and of extremes that are
level. The one adds samples up as they arrive and the other in ascending order, and a sum that fits
at the end may leave the range on its way.

The sort is the one of the standard library: where the comparison is no total preorder on what is
sorted, it may panic or put the samples in any order.
-/

namespace OnoSendai.Pipeline

open List Quantity

namespace Measure

/-! ### Totals by exact arithmetic -/

/-- Whether the totals of samples fit, from a total on: whether every sample is of the dimension of
the total, and is held with the totals before and after it on the greatest scale so far. -/
def TotalsFitFrom (dimension : Dimension) (scale : ℕ) (total : ℚ) : List Value → Prop
  | [] => True
  | sample :: samples => ∃ amount, measure sample = some (dimension, amount) ∧
      Adds dimension (max scale (scaleIn sample)) total amount ∧
      TotalsFitFrom dimension (max scale (scaleIn sample)) (total + amount) samples

/-- Whether the running totals of samples fit. -/
def TotalsFit : List Value → Prop
  | [] => True
  | sample :: samples => ∃ dimension amount, measure sample = some (dimension, amount) ∧
      TotalsFitFrom dimension (scaleIn sample) amount samples

/-- The amount of samples together. -/
def amountOf (samples : List Value) : ℚ :=
  (samples.map fun sample => ((measure sample).map (·.2)).getD 0).sum

section Totals

variable {platform : Platform} {instants : FromNanosecond} {samples : List Value} {total : Value}
  {dimension : Dimension} {amount : ℚ} {sum : Option Value}

/-- A sum that is formed from a total on has the dimension of the total and the amount of all. -/
theorem sumOf_eq_ok (hamount : IsAmount total) (hsamples : ∀ sample ∈ samples, IsAmount sample)
    (htotal : measure total = some (dimension, amount))
    (h : sumOf platform instants (some total) samples = .ok sum) :
    ∃ result, sum = some result ∧ measure result = some (dimension, amount + amountOf samples) := by
  induction samples generalizing total amount with
  | nil =>
    cases h
    exact ⟨total, rfl, by simpa [amountOf] using htotal⟩
  | cons sample samples ih =>
    rw [forall_mem_cons] at hsamples
    rw [sumOf, addTo] at h
    cases hadd : total.add platform.powi instants sample with
    | error failure =>
      rw [hadd] at h
      cases h
    | ok next =>
      rw [hadd] at h
      obtain ⟨⟨hnext, -⟩, d, x, y, hx, hy, hxy⟩ := isSum_of_add hamount hsamples.1 hadd
      obtain ⟨rfl, rfl⟩ : d = dimension ∧ x = amount := by
        rw [htotal] at hx
        cases hx
        exact ⟨rfl, rfl⟩
      obtain ⟨result, hresult, hmeasure⟩ := ih hnext hsamples.2 hxy h
      refine ⟨result, hresult, ?_⟩
      rw [hmeasure, amountOf, amountOf, map_cons, sum_cons, hy, add_assoc]
      rfl

theorem isOk_sumOf_iff (hamount : IsAmount total) (hsamples : ∀ sample ∈ samples, IsAmount sample)
    (htotal : measure total = some (dimension, amount)) :
    (sumOf platform instants (some total) samples).isOk ↔
      TotalsFitFrom dimension (scaleIn total) amount samples := by
  induction samples generalizing total amount with
  | nil => exact iff_of_true rfl trivial
  | cons sample samples ih =>
    rw [forall_mem_cons] at hsamples
    have hadds := @isOk_add_iff _ _ platform.powi instants hamount hsamples.1
    rw [sumOf, addTo, TotalsFitFrom]
    cases hadd : total.add platform.powi instants sample with
    | error failure =>
      rw [hadd] at hadds
      refine iff_of_false Bool.false_ne_true ?_
      rintro ⟨y, hy, h, -⟩
      exact Bool.false_ne_true (hadds.2 ⟨_, _, _, htotal, hy, h⟩)
    | ok next =>
      rw [hadd] at hadds
      obtain ⟨⟨hnext, hscale⟩, d, x, y, hx, hy, hxy⟩ := isSum_of_add hamount hsamples.1 hadd
      obtain ⟨rfl, rfl⟩ : d = dimension ∧ x = amount := by
        rw [htotal] at hx
        cases hx
        exact ⟨rfl, rfl⟩
      have hup := (addsUp_iff htotal hy).1 (hadds.1 rfl)
      rw [← hscale]
      refine (ih hnext hsamples.2 hxy).trans ⟨fun h => ⟨y, hy, hscale ▸ hup, h⟩, ?_⟩
      rintro ⟨z, hz, -, h⟩
      rw [hy] at hz
      cases hz
      exact h

theorem exists_measure {sample : Value} (h : IsAmount sample) :
    ∃ dimension amount, measure sample = some (dimension, amount) := by
  cases sample <;> first | exact ⟨_, _, rfl⟩ | exact h.elim

theorem isOk_sumOf_none_iff (hsamples : ∀ sample ∈ samples, IsAmount sample) :
    (sumOf platform instants none samples).isOk ↔ TotalsFit samples := by
  cases samples with
  | nil => exact iff_of_true rfl trivial
  | cons sample samples =>
    rw [forall_mem_cons] at hsamples
    obtain ⟨dimension, amount, hmeasure⟩ := exists_measure hsamples.1
    refine (isOk_sumOf_iff hsamples.1 hsamples.2 hmeasure).trans
      ⟨fun h => ⟨dimension, amount, hmeasure, h⟩, ?_⟩
    rintro ⟨d, x, hx, h⟩
    rw [hmeasure] at hx
    cases hx
    exact h

/-- The quantity that a sum of samples denotes: none where there are none. -/
def quantityOf (samples : List Value) : Option (Dimension × ℚ) :=
  samples.head?.bind fun sample => (measure sample).map fun found => (found.1, amountOf samples)

/-- A sum that is formed denotes the amount of the samples together. -/
theorem sumOf_none_eq_ok (hsamples : ∀ sample ∈ samples, IsAmount sample)
    (h : sumOf platform instants none samples = .ok sum) :
    sum.bind measure = quantityOf samples ∧ (sum = none ↔ samples = []) := by
  cases samples with
  | nil =>
    cases h
    exact ⟨rfl, iff_of_true rfl rfl⟩
  | cons sample samples =>
    rw [forall_mem_cons] at hsamples
    obtain ⟨dimension, amount, hmeasure⟩ := exists_measure hsamples.1
    obtain ⟨result, rfl, hresult⟩ := sumOf_eq_ok hsamples.1 hsamples.2 hmeasure h
    refine ⟨?_, by simp⟩
    rw [Option.bind_some, hresult, quantityOf, head?_cons, Option.bind_some, hmeasure,
      amountOf, amountOf, map_cons, sum_cons, hmeasure]
    rfl

theorem exists_measure_of_totalsFitFrom {scale : ℕ}
    (h : TotalsFitFrom dimension scale amount samples) :
    ∀ sample ∈ samples, ∃ x, measure sample = some (dimension, x) := by
  induction samples generalizing scale amount with
  | nil => exact forall_mem_nil _
  | cons sample samples ih =>
    obtain ⟨x, hx, -, hrest⟩ := h
    exact forall_mem_cons.2 ⟨⟨x, hx⟩, ih hrest⟩

/-- Samples whose totals fit denote one quantity in every order. -/
theorem quantityOf_perm {others : List Value} (h : TotalsFit samples)
    (hperm : others.Perm samples) : quantityOf others = quantityOf samples := by
  have hamount : amountOf others = amountOf samples := (hperm.map _).sum_eq
  cases samples with
  | nil => rw [hperm.eq_nil]
  | cons sample samples =>
    obtain ⟨dimension, amount, hmeasure, hrest⟩ := h
    have hall : ∀ other ∈ sample :: samples, ∃ x, measure other = some (dimension, x) :=
      forall_mem_cons.2 ⟨⟨amount, hmeasure⟩, exists_measure_of_totalsFitFrom hrest⟩
    cases others with
    | nil => exact absurd hperm.symm.eq_nil (cons_ne_nil _ _)
    | cons other others =>
      obtain ⟨x, hx⟩ := hall other (hperm.subset mem_cons_self)
      rw [quantityOf, quantityOf, head?_cons, head?_cons, Option.bind_some,
        Option.bind_some, hx, hmeasure, hamount]
      rfl

end Totals

/-! ### The least and the greatest -/

/-- Whether a comparison is a total preorder on samples. -/
def Preordered (powi : ℕ → UInt64) (samples : List Value) : Prop :=
  ∀ a ∈ samples, ∀ b ∈ samples, ∀ c ∈ samples, IsPreordered powi a b c

/-- Whether a key is ordered before another, or with it. -/
def IsBefore (powi : ℕ → UInt64) (left right : Value) : Prop :=
  (compareKeys powi left right).isLE

instance (powi : ℕ → UInt64) (left right : Value) : Decidable (IsBefore powi left right) :=
  inferInstanceAs (Decidable (_ = true))

/-- Samples in ascending order, of which those that are level keep the order they arrived in. -/
def ascending (powi : ℕ → UInt64) (samples : List Value) : List Value :=
  samples.insertionSort (IsBefore powi)

section Order

variable {platform : Platform} {powi : ℕ → UInt64} {samples : List Value} {left right : Value}

theorem isBefore_total (left right : Value) :
    IsBefore powi left right ∨ IsBefore powi right left := by
  rw [IsBefore, IsBefore, compareKeys_swap left right]
  cases compareKeys powi left right <;> decide

theorem isBefore_self (key : Value) : IsBefore powi key key := by
  rw [IsBefore, compareKeys_self]
  rfl

theorem compareKeys_eq_of_isBefore (h : IsBefore powi left right)
    (hback : IsBefore powi right left) : compareKeys powi left right = .eq := by
  rw [IsBefore, compareKeys_swap left right] at hback
  rw [IsBefore] at h
  cases horder : compareKeys powi left right with
  | lt =>
    rw [horder] at hback
    cases hback
  | eq => rfl
  | gt =>
    rw [horder] at h
    cases h

theorem isBefore_of_isLT (h : (compareKeys powi left right).isLT) : IsBefore powi left right := by
  rw [IsBefore]
  cases horder : compareKeys powi left right <;> rw [horder] at h <;> first | rfl | cases h

theorem isBefore_of_not_isLT (h : ¬(compareKeys powi left right).isLT) :
    IsBefore powi right left := by
  rw [IsBefore, compareKeys_swap left right]
  cases horder : compareKeys powi left right <;> rw [horder] at h <;>
    first | rfl | exact absurd rfl h

theorem pairwise_ascending (h : Preordered powi samples) :
    (ascending powi samples).Pairwise (IsBefore powi) := by
  let before (a b : {sample // sample ∈ samples}) : Prop := IsBefore powi a b
  have : DecidableRel before := fun a b => inferInstanceAs (Decidable (IsBefore powi a b))
  have : Std.Total before := ⟨fun a b => isBefore_total a.1 b.1⟩
  have : IsTrans _ before := ⟨fun a b c => (h a a.2 b b.2 c c.2).trans⟩
  have hmap : (samples.attach.insertionSort before).map Subtype.val = ascending powi samples := by
    rw [map_insertionSort before (IsBefore powi) Subtype.val samples.attach
      fun _ _ _ _ => Iff.rfl, attach_map_subtype_val]
    rfl
  rw [← hmap, pairwise_map]
  exact pairwise_insertionSort before samples.attach

/-- What a fold picks of each two that it meets is over all of them. -/
theorem foldl_pick {pick : Value → Option Value → Value} {Over : Value → Value → Prop}
    (hpick : ∀ a b, (pick a (some b) = a ∨ pick a (some b) = b) ∧
      Over (pick a (some b)) a ∧ Over (pick a (some b)) b) (hself : ∀ a, Over a a) {first : Value}
    (htrans : ∀ a ∈ first :: samples, ∀ b ∈ first :: samples, ∀ c ∈ first :: samples,
      Over a b → Over b c → Over a c) :
    ∃ picked,
      samples.foldl (fun held sample => some (pick sample held)) (some first) = some picked ∧
        picked ∈ first :: samples ∧ ∀ sample ∈ first :: samples, Over picked sample := by
  induction samples generalizing first with
  | nil =>
    exact ⟨first, rfl, mem_singleton_self _, forall_mem_singleton.2 (hself first)⟩
  | cons sample samples ih =>
    obtain ⟨hone, hsample, hfirst⟩ := hpick sample first
    have hmem : pick sample (some first) ∈ first :: sample :: samples := by
      rcases hone with h | h <;> rw [h] <;> simp
    have hsubset : pick sample (some first) :: samples ⊆ first :: sample :: samples :=
      cons_subset.2 ⟨hmem, fun _ h => mem_cons_of_mem _ (mem_cons_of_mem _ h)⟩
    obtain ⟨picked, hpicked, hin, hover⟩ := @ih (pick sample (some first)) fun a ha b hb c hc =>
      htrans a (hsubset ha) b (hsubset hb) c (hsubset hc)
    -- what is picked of the rest is over the one picked of the first two, and so over both
    have hthrough {other : Value} (hother : other ∈ first :: sample :: samples)
        (h : Over (pick sample (some first)) other) : Over picked other :=
      htrans _ (hsubset hin) _ hmem _ hother (hover _ mem_cons_self) h
    refine ⟨picked, hpicked, hsubset hin,
      forall_mem_cons.2 ⟨?_, forall_mem_cons.2 ⟨?_, ?_⟩⟩⟩
    · exact hthrough mem_cons_self hfirst
    · exact hthrough (mem_cons_of_mem _ mem_cons_self) hsample
    · exact fun other hother => hover other (mem_cons_of_mem _ hother)

theorem lesser_spec (a b : Value) :
    (lesser platform a (some b) = a ∨ lesser platform a (some b) = b) ∧
      IsBefore platform.powi (lesser platform a (some b)) a ∧
      IsBefore platform.powi (lesser platform a (some b)) b := by
  rw [lesser]
  split_ifs with h
  · exact ⟨.inl rfl, isBefore_self a, isBefore_of_isLT h⟩
  · exact ⟨.inr rfl, isBefore_of_not_isLT h, isBefore_self b⟩

theorem isGT_iff_isLT :
    (compareKeys powi left right).isGT = (compareKeys powi right left).isLT := by
  rw [compareKeys_swap left right, Ordering.isLT_swap]

theorem greater_spec (a b : Value) :
    (greater platform a (some b) = a ∨ greater platform a (some b) = b) ∧
      IsBefore platform.powi a (greater platform a (some b)) ∧
      IsBefore platform.powi b (greater platform a (some b)) := by
  rw [greater, isGT_iff_isLT]
  split_ifs with h
  · exact ⟨.inl rfl, isBefore_self a, isBefore_of_isLT h⟩
  · exact ⟨.inr rfl, isBefore_of_not_isLT h, isBefore_self b⟩

/-- The least of samples as they arrive is level with the first of them in ascending order. -/
theorem compareKeys_leastOf (h : Preordered platform.powi samples) :
    compareKeys platform.powi (orNull (leastOf platform none samples))
      (orNull (ascending platform.powi samples).head?) = .eq := by
  cases samples with
  | nil => exact compareKeys_self _
  | cons first samples =>
    obtain ⟨least, hleast, hmem, hall⟩ := @foldl_pick samples (lesser platform)
      (IsBefore platform.powi) lesser_spec isBefore_self first
      fun a ha b hb c hc => (h a ha b hb c hc).trans
    have hleastOf : leastOf platform none (first :: samples) = some least := hleast
    have hperm : (ascending platform.powi (first :: samples)).Perm (first :: samples) :=
      perm_insertionSort _ _
    have hpairwise := pairwise_ascending h
    cases hsorted : ascending platform.powi (first :: samples) with
    | nil => exact absurd (hsorted ▸ hperm).symm.eq_nil (cons_ne_nil _ _)
    | cons head rest =>
      rw [hsorted] at hperm hpairwise
      rw [hleastOf]
      refine compareKeys_eq_of_isBefore (hall head (hperm.subset mem_cons_self)) ?_
      rcases mem_cons.1 (hperm.symm.subset hmem) with heq | hrest
      · rw [heq]
        exact isBefore_self head
      · exact rel_of_pairwise_cons hpairwise hrest

/-- The greatest of samples as they arrive is level with the last of them in ascending order. -/
theorem compareKeys_greatestOf (h : Preordered platform.powi samples) :
    compareKeys platform.powi (orNull (greatestOf platform none samples))
      (orNull (ascending platform.powi samples).getLast?) = .eq := by
  cases samples with
  | nil => exact compareKeys_self _
  | cons first samples =>
    obtain ⟨most, hmost, hmem, hall⟩ := @foldl_pick samples (greater platform)
      (fun a b => IsBefore platform.powi b a) greater_spec isBefore_self first
      fun a ha b hb c hc hab hbc => (h c hc b hb a ha).trans hbc hab
    have hgreatestOf : greatestOf platform none (first :: samples) = some most := hmost
    have hperm : (ascending platform.powi (first :: samples)).Perm (first :: samples) :=
      perm_insertionSort _ _
    have hpairwise := pairwise_ascending h
    cases hsorted : (ascending platform.powi (first :: samples)).reverse with
    | nil =>
      rw [reverse_eq_nil_iff] at hsorted
      exact absurd (hsorted ▸ hperm).symm.eq_nil (cons_ne_nil _ _)
    | cons last rest =>
      rw [← pairwise_reverse, hsorted] at hpairwise
      have hperm' : (last :: rest).Perm (first :: samples) :=
        hsorted ▸ (reverse_perm _).trans hperm
      rw [hgreatestOf, ← head?_reverse, hsorted]
      refine compareKeys_eq_of_isBefore ?_ (hall last (hperm'.subset mem_cons_self))
      rcases mem_cons.1 (hperm'.symm.subset hmem) with heq | hrest
      · rw [heq]
        exact isBefore_self last
      · exact rel_of_pairwise_cons hpairwise hrest

end Order

/-! ### Agreement -/

/-- What the library says of its sort: it permutes what it sorts, and where the comparison is a
total preorder there, it is stable. Elsewhere it may panic. -/
structure LibrarySort (powi : ℕ → UInt64) where
  sort : List Value → Option (List Value)
  perm : ∀ {samples sorted}, sort samples = some sorted → sorted.Perm samples
  stable : ∀ {samples}, Preordered powi samples → sort samples = some (ascending powi samples)

open Classical in
/-- A sort that answers samples that are not preordered with any permutation, or panics. -/
noncomputable def LibrarySort.answering {powi : ℕ → UInt64} {samples : List Value}
    (h : ¬Preordered powi samples) (answer : Option (List Value))
    (hanswer : ∀ sorted, answer = some sorted → sorted.Perm samples) : LibrarySort powi where
  sort others := if others = samples then answer else some (ascending powi others)
  perm := by
    intro others sorted hsorted
    split_ifs at hsorted with heq
    · exact heq ▸ hanswer sorted hsorted
    · cases hsorted
      exact perm_insertionSort _ _
  stable := by
    intro others hothers
    have hne : others ≠ samples := by
      rintro rfl
      exact h hothers
    exact if_neg hne

/-- The sort that answers everything in ascending order. -/
def LibrarySort.plain (powi : ℕ → UInt64) : LibrarySort powi where
  sort samples := some (ascending powi samples)
  perm h := Option.some.inj h ▸ perm_insertionSort _ _
  stable _ := rfl

/-- Whether two sums denote one quantity, or are both null. -/
def SameSum (one other : Value) : Prop :=
  (one = .null ∧ other = .null) ∨
    ∃ quantity, measure one = some quantity ∧ measure other = some quantity

/-- Whether two records tell of the same statistics. -/
structure Measured.Matches (powi : ℕ → UInt64) (one other : Measured) : Prop where
  count : one.count = other.count
  skipped : one.skipped = other.skipped
  sum : SameSum one.sum other.sum
  min : compareKeys powi one.min other.min = .eq
  max : compareKeys powi one.max other.max = .eq

/-- What the two ways promise: one emits a record exactly when the other does, and their records
tell of the same statistics. -/
structure Agree (powi : ℕ → UInt64) (one other : List Emission) : Prop where
  produces : measuredOf one ≠ [] ↔ measuredOf other ≠ []
  same : ∀ found ∈ measuredOf one, ∀ held ∈ measuredOf other, found.Matches powi held

/-- Whether samples are preordered and their totals fit as they arrive when they fit in ascending
order, or are not preordered and their totals fit in no order. -/
def FitAlike (powi : ℕ → UInt64) (samples : List Value) : Prop :=
  (Preordered powi samples ∧ (TotalsFit samples ↔ TotalsFit (ascending powi samples))) ∨
    (¬Preordered powi samples ∧ ∀ order : List Value, order.Perm samples → ¬TotalsFit order)

section Agreement

variable {platform : Platform} {instants : FromNanosecond} {key : KeyFn} {events : List Emission}
  {samples : List Value} {skipped : ℕ} {sawFailure : Bool} {sort : LibrarySort platform.powi}

theorem measuredOf_running :
    measuredOf (running platform instants key false events) =
      (sumOf platform instants none (samplesOf platform key events)).toOption.elim [] fun sum =>
        told (samplesOf platform key events).length (nullsOf key events) (failed events) sum
          (leastOf platform none (samplesOf platform key events))
          (greatestOf platform none (samplesOf platform key events)) := by
  rw [running, Running.measuredOf_read, Bool.false_or]
  simp only [Running.initial, Nat.zero_add]

theorem told_ne_nil (h : ¬(samples = [] ∧ skipped = 0 ∧ sawFailure)) {sum min max : Option Value} :
    told samples.length skipped sawFailure sum min max =
      [⟨samples.length, skipped, orNull sum, orNull min, orNull max⟩] := by
  rw [told, if_neg fun hall => h ⟨length_eq_zero_iff.1 hall.1, hall.2⟩]

theorem measuredOf_finish (h : ¬(samples = [] ∧ skipped = 0 ∧ sawFailure)) :
    measuredOf (finish platform instants sort.sort sawFailure samples skipped) =
      (sort.sort samples).elim [] fun sorted =>
        measuredOf (summarise platform instants sorted skipped) := by
  rw [finish, if_neg h]
  cases sort.sort samples <;> rfl

variable {tell : Option Value → Measured}

theorem elim_ne_nil {found : Except ErrorValue (Option Value)} :
    (found.toOption.elim [] fun sum => [tell sum]) ≠ [] ↔ found.isOk := by
  cases found with
  | error failure => exact iff_of_false (fun h => h rfl) Bool.false_ne_true
  | ok sum => exact iff_of_true (cons_ne_nil _ _) rfl

theorem isAmount_perm {order : List Value} (hsamples : ∀ sample ∈ samples, IsAmount sample)
    (hperm : order.Perm samples) : ∀ sample ∈ order, IsAmount sample :=
  fun sample h => hsamples sample (hperm.subset h)

theorem measuredOf_finish_ne_nil (h : ¬(samples = [] ∧ skipped = 0 ∧ sawFailure))
    (hsamples : ∀ sample ∈ samples, IsAmount sample) :
    measuredOf (finish platform instants sort.sort sawFailure samples skipped) ≠ [] ↔
      ∃ sorted, sort.sort samples = some sorted ∧ TotalsFit sorted := by
  rw [measuredOf_finish h]
  cases hsort : sort.sort samples with
  | none => exact iff_of_false (fun h => h rfl) fun ⟨_, hsorted, _⟩ => nomatch hsorted
  | some sorted =>
    rw [Option.elim_some, measuredOf_summarise, elim_ne_nil,
      isOk_sumOf_none_iff (isAmount_perm hsamples (sort.perm hsort))]
    constructor
    · exact fun hfit => ⟨sorted, rfl, hfit⟩
    · rintro ⟨_, ⟨⟩, hfit⟩
      exact hfit

/-- Two sums that denote one quantity where there are samples. -/
theorem sameSum {one other : Option Value} {order : List Value} (hfit : TotalsFit samples)
    (hsamples : ∀ sample ∈ samples, IsAmount sample) (hperm : order.Perm samples)
    (hone : sumOf platform instants none samples = .ok one)
    (hother : sumOf platform instants none order = .ok other) :
    SameSum (orNull one) (orNull other) := by
  obtain ⟨hquantity, hempty⟩ := sumOf_none_eq_ok hsamples hone
  obtain ⟨hquantity', hempty'⟩ := sumOf_none_eq_ok (isAmount_perm hsamples hperm) hother
  rw [quantityOf_perm hfit hperm] at hquantity'
  cases samples with
  | nil => exact .inl ⟨hempty.2 rfl ▸ rfl, hempty'.2 hperm.eq_nil ▸ rfl⟩
  | cons sample samples =>
    obtain ⟨dimension, amount, hmeasure, -⟩ := hfit
    have hsome : quantityOf (sample :: samples) =
        some (dimension, amountOf (sample :: samples)) := by
      rw [quantityOf, head?_cons, Option.bind_some, hmeasure]
      rfl
    rw [hsome, Option.bind_eq_some_iff] at hquantity hquantity'
    obtain ⟨total, rfl, htotal⟩ := hquantity
    obtain ⟨total', rfl, htotal'⟩ := hquantity'
    exact .inr ⟨_, htotal, htotal'⟩

/-- Samples whose sums are formed are measured alike as they arrive and in ascending order. -/
theorem matches_of_preordered (hpreordered : Preordered platform.powi samples)
    (hsamples : ∀ sample ∈ samples, IsAmount sample) {one other : Option Value}
    (hone : sumOf platform instants none samples = .ok one)
    (hother : sumOf platform instants none (ascending platform.powi samples) = .ok other) :
    Measured.Matches platform.powi
      ⟨samples.length, skipped, orNull one, orNull (leastOf platform none samples),
        orNull (greatestOf platform none samples)⟩
      ⟨(ascending platform.powi samples).length, skipped, orNull other,
        orNull (ascending platform.powi samples).head?,
        orNull (ascending platform.powi samples).getLast?⟩ where
  count := by rw [ascending, length_insertionSort]
  skipped := rfl
  sum := by
    have hfit : TotalsFit samples := (isOk_sumOf_none_iff hsamples).1 (by rw [hone]; rfl)
    exact sameSum hfit hsamples (perm_insertionSort _ _) hone hother
  min := compareKeys_leastOf hpreordered
  max := compareKeys_greatestOf hpreordered

/-- Where the samples are preordered, a record comes of both ways or of none where the totals fit
as they arrive and in ascending order, or in neither. -/
theorem agree_iff_of_preordered (hpreordered : Preordered platform.powi samples)
    (hsamples : ∀ sample ∈ samples, IsAmount sample)
    (h : ¬(samples = [] ∧ skipped = 0 ∧ sawFailure)) {emitted : List Emission}
    (hemitted : measuredOf emitted =
      (sumOf platform instants none samples).toOption.elim [] fun sum =>
        [⟨samples.length, skipped, orNull sum, orNull (leastOf platform none samples),
          orNull (greatestOf platform none samples)⟩]) :
    Agree platform.powi emitted (finish platform instants sort.sort sawFailure samples skipped) ↔
      (TotalsFit samples ↔ TotalsFit (ascending platform.powi samples)) := by
  have hsort := sort.stable hpreordered
  have hone : measuredOf emitted ≠ [] ↔ TotalsFit samples := by
    rw [hemitted, elim_ne_nil, isOk_sumOf_none_iff hsamples]
  have hother : measuredOf (finish platform instants sort.sort sawFailure samples skipped) ≠ [] ↔
      TotalsFit (ascending platform.powi samples) := by
    rw [measuredOf_finish_ne_nil h hsamples, hsort]
    exact ⟨fun ⟨_, hsorted, hfit⟩ => Option.some.inj hsorted ▸ hfit, fun hfit => ⟨_, rfl, hfit⟩⟩
  rw [← hone, ← hother]
  refine ⟨Agree.produces, fun hproduces => ⟨hproduces, fun found hfound held hheld => ?_⟩⟩
  rw [hemitted] at hfound
  rw [measuredOf_finish h, hsort, Option.elim_some, measuredOf_summarise] at hheld
  cases hsum : sumOf platform instants none samples with
  | error failure =>
    rw [hsum] at hfound
    cases hfound
  | ok one =>
    cases hsum' : sumOf platform instants none (ascending platform.powi samples) with
    | error failure =>
      rw [hsum'] at hheld
      cases hheld
    | ok other =>
      rw [hsum] at hfound
      rw [hsum'] at hheld
      obtain rfl := mem_singleton.1 hfound
      obtain rfl := mem_singleton.1 hheld
      exact matches_of_preordered hpreordered hsamples hsum hsum'

/-- Where the samples are not preordered, and the sort may panic or answer any permutation, no
record comes of either way exactly where the totals fit in no order. -/
theorem agree_iff_of_not_preordered (hpreordered : ¬Preordered platform.powi samples)
    (hsamples : ∀ sample ∈ samples, IsAmount sample)
    (h : ¬(samples = [] ∧ skipped = 0 ∧ sawFailure)) {emitted : List Emission}
    (hemitted : measuredOf emitted =
      (sumOf platform instants none samples).toOption.elim [] fun sum => [tell sum]) :
    (∀ sort : LibrarySort platform.powi, Agree platform.powi emitted
      (finish platform instants sort.sort sawFailure samples skipped)) ↔
      ∀ order : List Value, order.Perm samples → ¬TotalsFit order := by
  have hone : measuredOf emitted ≠ [] ↔ TotalsFit samples := by
    rw [hemitted, elim_ne_nil, isOk_sumOf_none_iff hsamples]
  have hother (sort : LibrarySort platform.powi) :=
    @measuredOf_finish_ne_nil platform instants samples skipped sawFailure sort h hsamples
  constructor
  · intro hall order hperm hfit
    have hsamplesFit : TotalsFit samples := by
      refine hone.1 ((hall (.answering hpreordered (some order) ?_)).produces.2 ?_)
      · rintro sorted ⟨⟩
        exact hperm
      · exact (hother _).2 ⟨order, if_pos rfl, hfit⟩
    -- a sort that panics leaves no record to match the one in constant state
    obtain ⟨sorted, hsorted, -⟩ := (hother (.answering hpreordered none nofun)).1
      ((hall _).produces.1 (hone.2 hsamplesFit))
    rw [LibrarySort.answering] at hsorted
    simp only [if_true, reduceCtorEq] at hsorted
  · intro hnone sort
    have hempty : ¬measuredOf emitted ≠ [] := mt hone.1 (hnone samples (Perm.refl _))
    have hempty' :
        ¬measuredOf (finish platform instants sort.sort sawFailure samples skipped) ≠ [] := by
      rw [hother]
      rintro ⟨sorted, hsorted, hfit⟩
      exact hnone sorted (sort.perm hsorted) hfit
    refine ⟨iff_of_false hempty hempty', fun found hfound => ?_⟩
    rw [not_not.1 hempty] at hfound
    cases hfound

theorem agree_congr {powi : ℕ → UInt64} {one one' other other' : List Emission}
    (hone : measuredOf one = measuredOf one') (hother : measuredOf other = measuredOf other') :
    Agree powi one other ↔ Agree powi one' other' := by
  constructor <;> rintro ⟨hproduces, hsame⟩ <;> constructor
  · rwa [← hone, ← hother]
  · rwa [← hone, ← hother]
  · rwa [hone, hother]
  · rwa [hone, hother]

/-- **The two ways agree exactly where totals fit alike.** Whatever the sort of the library, the
record in constant state is there exactly when the one over the held samples is, and tells of the
same statistics, exactly where the samples are preordered and their totals fit as they arrive when
they fit in ascending order, or are not preordered and their totals fit in no order. -/
theorem agree_iff (platform : Platform) (instants : FromNanosecond) (key : KeyFn)
    (estimatedSize : Value → ℕ) (limits : MaterializationLimits) (events : List Emission)
    (hsamples : ∀ sample ∈ samplesOf platform key events, IsAmount sample)
    (hbudget : (limits.budgetFor "measure").Admits estimatedSize (valuesOf events)) :
    (∀ sort : LibrarySort platform.powi, Agree platform.powi
      (running platform instants key false events)
      (collecting platform instants key sort.sort estimatedSize limits events)) ↔
      FitAlike platform.powi (samplesOf platform key events) := by
  have hrunning := @measuredOf_running platform instants key events
  have hcollecting (sort : LibrarySort platform.powi) :
      measuredOf (collecting platform instants key sort.sort estimatedSize limits events) =
        measuredOf (finish platform instants sort.sort (failed events)
          (samplesOf platform key events) (nullsOf key events)) := by
    rw [collecting, measuredOf_collect, Bool.false_or, nil_append, Nat.zero_add]
    exact if_pos hbudget
  simp only [agree_congr rfl (hcollecting _)]
  by_cases h : samplesOf platform key events = [] ∧ nullsOf key events = 0 ∧ failed events
  · have hnone : measuredOf (running platform instants key false events) = [] := by
      rw [hrunning, h.1, h.2.1, h.2.2]
      rfl
    rw [h.1]
    refine iff_of_true (fun sort => ?_) (.inl ⟨nofun, Iff.rfl⟩)
    rw [finish, if_pos ⟨rfl, h.2⟩]
    exact ⟨iff_of_false (fun hne => hne hnone) fun hne => hne rfl, fun _ _ _ hheld => nomatch hheld⟩
  · simp only [told_ne_nil h] at hrunning
    by_cases hpreordered : Preordered platform.powi (samplesOf platform key events)
    · have hsort (sort : LibrarySort platform.powi) :=
        @agree_iff_of_preordered _ _ _ _ _ sort hpreordered hsamples h _ hrunning
      rw [FitAlike, and_iff_right hpreordered, or_iff_left fun hnot => hnot.1 hpreordered]
      exact ⟨fun hall => (hsort (.plain _)).1 (hall _), fun hfit sort => (hsort sort).2 hfit⟩
    · rw [FitAlike, and_iff_right hpreordered, or_iff_right fun hyes => hpreordered hyes.1]
      exact agree_iff_of_not_preordered hpreordered hsamples h hrunning

/-- The quotient of a whole number in floating point. -/
def quotient (total : Value) (count : ℕ) : Option Value :=
  match total with
  | .int number => some (.float (Binary64.div (Binary64.ofInt number) (Binary64.ofInt count)))
  | _ => none

/-- The statistics of two integers that are equal. -/
def twoEqual : Platform where
  powi _ := 0
  mean := quotient
  deviate _ _ scale := (scale, 0)
  stddev _ _ := 0
  median samples := samples.head?.bind (quotient · 1)
  stddevOf _ := some (.float 0)
  percentiles _ := none

/-- Two integers between a null, a text and a failure. -/
def mixed : List Emission :=
  [.value (.int 7), .value .null, .failure (overflow "addition"), .value (.string "x"),
    .value (.int 7)]

/-- Two integers that are equal are measured alike. -/
theorem agree_iff_mixed :
    measuredOf (running twoEqual withinYears .ok false mixed) ≠ [] ∧
    ∀ sort : LibrarySort twoEqual.powi, Agree twoEqual.powi
      (running twoEqual withinYears .ok false mixed)
      (collecting twoEqual withinYears .ok sort.sort (fun _ => 1) ⟨4, 4⟩ mixed) := by
  have hsamples : samplesOf twoEqual .ok mixed = [.int 7, .int 7] := rfl
  have hseven : ∀ sample ∈ samplesOf twoEqual .ok mixed, sample = .int 7 := by
    rw [hsamples]
    simp
  refine ⟨fun hnone => absurd (isEmpty_iff.2 hnone) (by decide +kernel), ?_⟩
  refine (agree_iff twoEqual withinYears .ok (fun _ => 1) ⟨4, 4⟩ mixed ?_ rfl).2 ?_
  · intro sample hsample
    rw [hseven sample hsample]
    exact (by decide : FitsI128 7)
  · refine .inl ⟨?_, Iff.rfl⟩
    intro a ha b hb c hc
    rw [hseven a ha, hseven b hb, hseven c hc]
    exact ⟨compareKeys_self _, compareKeys_swap _ _, fun _ h => h⟩

/-- **A total that overflows as it arrives.** The greatest integer, one and minus one add up in
ascending order only: there is no record in constant state. -/
theorem not_agree : ¬∀ (platform : Platform) (instants : FromNanosecond) (key : KeyFn)
    (estimatedSize : Value → ℕ) (limits : MaterializationLimits) (events : List Emission),
    (∀ sample ∈ samplesOf platform key events, IsAmount sample) →
    (limits.budgetFor "measure").Admits estimatedSize (valuesOf events) →
    ∀ sort : LibrarySort platform.powi, Agree platform.powi
      (running platform instants key false events)
      (collecting platform instants key sort.sort estimatedSize limits events) := by
  intro h
  have hagree := h twoEqual withinYears .ok (fun _ => 1) ⟨3, 3⟩
    [.value (.int (2 ^ 127 - 1)), .value (.int 1), .value (.int (-1))] ?_ rfl (.plain _)
  · refine hagree.produces.2 (fun hnone => ?_) (isEmpty_iff.1 (by decide +kernel))
    exact absurd (isEmpty_iff.2 hnone) (by decide +kernel)
  · intro sample hsample
    have hmem : sample ∈ [Value.int (2 ^ 127 - 1), .int 1, .int (-1)] := hsample
    simp only [mem_cons, not_mem_nil, or_false] at hmem
    rcases hmem with rfl | rfl | rfl
    · exact (by decide : FitsI128 (2 ^ 127 - 1))
    · exact (by decide : FitsI128 1)
    · exact (by decide : FitsI128 (-1))

end Agreement

end Measure

end OnoSendai.Pipeline
