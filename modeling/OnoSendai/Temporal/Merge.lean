import Mathlib.Data.Prod.Lex
import OnoSendai.Lib.Buckets
import OnoSendai.Lib.Contest
import OnoSendai.Lib.Indexed
import OnoSendai.Lib.Ranking
import OnoSendai.Temporal.Record
import OnoSendai.Value.SameData

/-!
# Merging the answers about the past

A replayed answer and a provider's own are merged field by field: the stronger evidence wins, then
the observation closer to the question, then the source whose name comes first. On a tie in all
three the answer that came first stays, and a disagreement is noted against the answer held at the
time. The result is therefore free of the order of the answers only where the answers that nothing
beats say the same, and where value equality does not hide a disagreement.
-/

namespace OnoSendai.Temporal

open Contest Keyed List

/-! ### Answers -/

/-- One source's answer about one field at the queried instant. -/
structure FieldAnswer where
  field : String
  value : Option Value
  strength : EvidenceStrength
  source : EvidenceSource
  coverage : TemporalCompleteness
  evidence : List EvidenceId
  observedAt : Option Int

/-- The field one merge produced, and what it rests on. -/
structure MergedField where
  field : String
  value : Option Value
  strength : EvidenceStrength
  source : EvidenceSource
  coverage : TemporalCompleteness
  evidence : List EvidenceId
  contributors : List EvidenceSource
  observedAt : Option Int
  conflicting : Bool

/-- A field that holds an answer. -/
def MergedField.holding (answer : FieldAnswer) (contributors : List EvidenceSource)
    (conflicting : Bool) : MergedField where
  field := answer.field
  value := answer.value
  strength := answer.strength
  source := answer.source
  coverage := answer.coverage
  evidence := answer.evidence
  contributors := contributors
  observedAt := answer.observedAt
  conflicting := conflicting

/-- The field the first answer for it opens. -/
def opened (answer : FieldAnswer) : MergedField :=
  .holding answer [answer.source] false

/-- Whether an answer beats what is already held: by strength, then by the time it was observed,
then by the name of its source. -/
def wins (held : MergedField) (answer : FieldAnswer) : Bool :=
  match compare answer.strength.rank held.strength.rank with
  | .gt => true
  | .lt => false
  | .eq =>
    match answer.observedAt, held.observedAt with
    | some candidate, some incumbent =>
      if candidate ≠ incumbent then incumbent < candidate
      else answer.source.text < held.source.text
    | some _, none => true
    | none, some _ => false
    | none, none => answer.source.text < held.source.text

section Merge

variable (powi : ℕ → UInt64)

/-- Equality of what two sources saw, where a source may have seen nothing. -/
def seenEq : Option Value → Option Value → Bool
  | some one, some two => one.eq powi two
  | none, none => true
  | _, _ => false

/-- Folds one further answer into a field that already has one. -/
def absorb (held : MergedField) (answer : FieldAnswer) : MergedField :=
  let contributors :=
    if answer.source ∈ held.contributors then held.contributors
    else held.contributors ++ [answer.source]
  let conflicting := if !seenEq powi held.value answer.value then true else held.conflicting
  if wins held answer then
    { held with
      value := answer.value
      strength := answer.strength
      source := answer.source
      coverage := answer.coverage
      evidence := answer.evidence
      contributors := contributors
      observedAt := answer.observedAt
      conflicting := conflicting }
  else
    { held with contributors := contributors, conflicting := conflicting }

/-- Merges a replayed answer with a provider-owned historical answer, field by field. -/
def mergeFields (replayed provider : List FieldAnswer) : List MergedField :=
  ((gather FieldAnswer.field opened (fun answer held => absorb powi held answer)
    (replayed ++ provider)).map (·.2)).insertionSort fun a b => TextBefore a.field b.field

end Merge

/-! ### What is held in the end -/

section Settled

variable {powi : ℕ → UInt64} {answer held : FieldAnswer} {rest answers : List FieldAnswer}
  {contributors : List EvidenceSource} {conflicting : Bool}

/-- When an answer was observed, before everything where it does not say. -/
def FieldAnswer.seenAt (answer : FieldAnswer) : WithBot ℤ :=
  answer.observedAt.elim ⊥ fun instant => (instant : WithBot ℤ)

/-- What answers are compared by. -/
def FieldAnswer.rank (answer : FieldAnswer) : ℕ ×ₗ WithBot ℤ ×ₗ Stringᵒᵈ :=
  toLex (answer.strength.rank, toLex (answer.seenAt, OrderDual.toDual answer.source.text))

/-- Whether two answers hold equal values. -/
def FieldAnswer.same (powi : ℕ → UInt64) (one two : FieldAnswer) : Bool :=
  seenEq powi one.value two.value

theorem rank_lt_iff : held.rank < answer.rank ↔ held.strength.rank < answer.strength.rank ∨
    held.strength.rank = answer.strength.rank ∧ (held.seenAt < answer.seenAt ∨
      held.seenAt = answer.seenAt ∧ answer.source.text < held.source.text) := by
  rw [FieldAnswer.rank, FieldAnswer.rank, Prod.Lex.toLex_lt_toLex, Prod.Lex.toLex_lt_toLex]
  rfl

/-- An answer wins where it has the higher rank. -/
theorem wins_holding : wins (.holding held contributors conflicting) answer =
    decide (held.rank < answer.rank) := by
  rw [Bool.eq_iff_iff, decide_eq_true_iff, rank_lt_iff, wins, MergedField.holding]
  rcases lt_trichotomy held.strength.rank answer.strength.rank with hlt | heq | hgt
  · rw [compare_gt_iff_gt.2 hlt]
    exact iff_of_true rfl (.inl hlt)
  · rw [compare_eq_iff_eq.2 heq.symm, heq]
    simp only [lt_self_iff_false, false_or, true_and, FieldAnswer.seenAt]
    cases hseen : answer.observedAt <;> cases hheld : held.observedAt
    · simp
    · simp
    · simp
    · rename_i candidate incumbent
      by_cases hsame : candidate = incumbent
      · simp [hsame]
      · simp [hsame, Ne.symm hsame]
  · rw [compare_lt_iff_lt.2 hgt]
    refine iff_of_false Bool.false_ne_true ?_
    rintro (hlt | ⟨heq, -⟩)
    · exact lt_asymm hlt hgt
    · exact hgt.ne' heq

/-- The sources that answered, each once. -/
def withSource (contributors : List EvidenceSource) (answer : FieldAnswer) : List EvidenceSource :=
  if answer.source ∈ contributors then contributors else contributors ++ [answer.source]

/-- Absorbing an answer holds the better one and notes a difference to the one held. -/
theorem absorb_holding (hfield : answer.field = held.field) :
    absorb powi (.holding held contributors conflicting) answer =
      .holding (pick FieldAnswer.rank held answer) (withSource contributors answer)
        (conflicting || !FieldAnswer.same powi held answer) := by
  have hconflict : (if !seenEq powi held.value answer.value then true else conflicting) =
      (conflicting || !FieldAnswer.same powi held answer) := by
    rw [FieldAnswer.same]
    cases seenEq powi held.value answer.value <;> cases conflicting <;> rfl
  rw [absorb, wins_holding, pick]
  by_cases hlt : held.rank < answer.rank
  · rw [if_pos (decide_eq_true hlt), if_pos hlt, ← hconflict]
    simp only [MergedField.holding, hfield, withSource]
    rfl
  · rw [if_neg (by simpa using hlt), if_neg hlt, ← hconflict]
    rfl

theorem foldl_absorb (hfield : ∀ answer ∈ rest, answer.field = held.field) :
    rest.foldl (absorb powi) (.holding held contributors conflicting) =
      .holding (champion FieldAnswer.rank held rest) (rest.foldl withSource contributors)
        (conflicting || clashes FieldAnswer.rank (FieldAnswer.same powi) held rest) := by
  induction rest generalizing held contributors conflicting with
  | nil => rw [clashes, Bool.or_false]; rfl
  | cons answer rest ih =>
    rw [forall_mem_cons] at hfield
    have hpick : (pick FieldAnswer.rank held answer).field = held.field := by
      rcases pick_eq_or FieldAnswer.rank held answer with heq | heq <;> rw [heq]
      exact hfield.1
    rw [foldl_cons, absorb_holding hfield.1, ih fun other hother => by
      rw [hfield.2 other hother, hpick], clashes, Bool.or_assoc]
    rfl

theorem mem_foldl_withSource {source : EvidenceSource} :
    source ∈ rest.foldl withSource contributors ↔
      source ∈ contributors ∨ ∃ answer ∈ rest, answer.source = source := by
  induction rest generalizing contributors with
  | nil => simp
  | cons answer rest ih =>
    have hstep : source ∈ withSource contributors answer ↔
        source ∈ contributors ∨ answer.source = source := by
      unfold withSource
      split_ifs with hmem
      · exact ⟨.inl, fun h => h.elim id fun heq => heq ▸ hmem⟩
      · rw [mem_append, mem_singleton, eq_comm]
    rw [foldl_cons, ih, hstep, exists_mem_cons_iff, or_assoc]

/-- The answers for one field. -/
def answersFor (answers : List FieldAnswer) (field : String) : List FieldAnswer :=
  answers.filter (·.field = field)

theorem field_of_mem_answersFor {field : String} (h : answer ∈ answersFor answers field) :
    answer.field = field :=
  of_decide_eq_true (mem_filter.1 h).2

/-- What the answers for one field come to. -/
def settled (powi : ℕ → UInt64) (first : FieldAnswer) (rest : List FieldAnswer) : MergedField :=
  .holding (champion FieldAnswer.rank first rest) (rest.foldl withSource [first.source])
    (clashes FieldAnswer.rank (FieldAnswer.same powi) first rest)

theorem field_settled (hfield : ∀ answer ∈ rest, answer.field = held.field) :
    (settled powi held rest).field = held.field := by
  rcases mem_cons.1 (champion_mem FieldAnswer.rank held rest) with heq | hmem
  · exact congrArg FieldAnswer.field heq
  · exact hfield _ hmem

/-- A field no one answered for. -/
def unanswered : MergedField where
  field := ""
  value := none
  strength := .observational
  source := .session
  coverage := .unknown
  evidence := []
  contributors := []
  observedAt := none
  conflicting := false

/-- What the answers for one field come to, in the order they came. -/
def settledOf (powi : ℕ → UInt64) : List FieldAnswer → MergedField
  | [] => unanswered
  | first :: rest => settled powi first rest

theorem field_settledOf {field : String} (h : answersFor answers field ≠ []) :
    (settledOf powi (answersFor answers field)).field = field := by
  obtain ⟨first, rest, hsplit⟩ := exists_cons_of_ne_nil h
  have hall : ∀ answer ∈ first :: rest, answer.field = field := fun answer hanswer =>
    field_of_mem_answersFor (hsplit ▸ hanswer)
  rw [forall_mem_cons] at hall
  rw [hsplit, settledOf, field_settled fun answer hanswer =>
    (hall.2 answer hanswer).trans hall.1.symm, hall.1]

theorem answersFor_ne_nil {known : FieldAnswer} (h : known ∈ firstKept FieldAnswer.field answers) :
    answersFor answers known.field ≠ [] :=
  ne_nil_of_mem (mem_filter.2 ⟨mem_of_mem_firstKept h, by simp⟩)

/-- **What a merge holds.** There is one field for each that was answered for, and it holds what
the answers for it come to. -/
theorem gather_answers (answers : List FieldAnswer) :
    (gather FieldAnswer.field opened (fun answer held => absorb powi held answer) answers).map
        (·.2) =
      (firstKept FieldAnswer.field answers).map fun known =>
        settledOf powi (answersFor answers known.field) := by
  let content : List FieldAnswer → MergedField := fun answers =>
    answers.tail.foldl (absorb powi) ((answers.head?.map opened).getD unanswered)
  have hgather : gather FieldAnswer.field opened (fun answer held => absorb powi held answer)
      answers = (firstKept FieldAnswer.field answers).map fun known =>
        (known.field, content (answersFor answers known.field)) :=
    gather_eq content (fun _ => rfl) (fun held item hne => by
      obtain ⟨first, rest, rfl⟩ := exists_cons_of_ne_nil hne
      simp [content, foldl_append]) answers
  rw [hgather, map_map]
  refine map_congr_left fun known hknown => ?_
  obtain ⟨first, rest, hsplit⟩ := exists_cons_of_ne_nil (answersFor_ne_nil hknown)
  have hall : ∀ answer ∈ first :: rest, answer.field = known.field := fun answer hanswer =>
    field_of_mem_answersFor (hsplit ▸ hanswer)
  rw [forall_mem_cons] at hall
  show content (answersFor answers known.field) = settledOf powi (answersFor answers known.field)
  rw [hsplit]
  show rest.foldl (absorb powi) (.holding first [first.source] false) = _
  rw [foldl_absorb fun answer hanswer => (hall.2 answer hanswer).trans hall.1.symm, Bool.false_or]
  rfl

theorem mem_mergeFields_iff {replayed provider : List FieldAnswer} {merged : MergedField} :
    merged ∈ mergeFields powi replayed provider ↔
      answersFor (replayed ++ provider) merged.field ≠ [] ∧
        merged = settledOf powi (answersFor (replayed ++ provider) merged.field) := by
  rw [mergeFields, mem_insertionSort, gather_answers, mem_map]
  constructor
  · rintro ⟨known, hknown, rfl⟩
    have hne := answersFor_ne_nil hknown
    rw [field_settledOf hne]
    exact ⟨hne, rfl⟩
  · rintro ⟨hne, hmerged⟩
    obtain ⟨answer, hanswer⟩ := exists_mem_of_ne_nil _ hne
    obtain ⟨known, hknown, hkey⟩ := exists_mem_firstKept FieldAnswer.field
      (mem_filter.1 hanswer).1
    have hfield : known.field = merged.field := hkey.trans (field_of_mem_answersFor hanswer)
    exact ⟨known, hknown, by rw [hfield, ← hmerged]⟩

theorem map_field_mergeFields (replayed provider : List FieldAnswer) :
    (mergeFields powi replayed provider).map (·.field) =
      ((firstKept FieldAnswer.field (replayed ++ provider)).map (·.field)).insertionSort
        TextBefore := by
  rw [mergeFields, map_insertionSort _ TextBefore MergedField.field _ fun _ _ _ _ => Iff.rfl,
    gather_answers, map_map]
  refine congrArg _ (map_congr_left fun known hknown => ?_)
  exact field_settledOf (answersFor_ne_nil hknown)

theorem map_field_mergeFields_of_perm {replayed provider replayed' provider' : List FieldAnswer}
    (h : (replayed ++ provider).Perm (replayed' ++ provider')) :
    (mergeFields powi replayed provider).map (·.field) =
      (mergeFields powi replayed' provider').map (·.field) := by
  rw [map_field_mergeFields, map_field_mergeFields]
  exact Ranking.insertionSort_eq_of_perm id TextBefore (fun _ _ => Iff.rfl)
    (map_firstKept_perm id (fun _ => rfl) (fun _ _ _ _ h => h) h) fun _ _ _ _ h => h

end Settled

/-! ### The contract -/

section Contract

variable {powi : ℕ → UInt64} {answers : List FieldAnswer} {field : String}

/-- Two readings of a field that are equal as the program compares them, or the very same. -/
def SameReading (powi : ℕ → UInt64) (one two : Option Value) : Prop :=
  one = two ∨ seenEq powi one two = true

/-- Two merges agree on a field. -/
structure Agrees (powi : ℕ → UInt64) (one two : MergedField) : Prop where
  field : one.field = two.field
  value : SameReading powi one.value two.value
  strength : one.strength = two.strength
  source : one.source = two.source
  coverage : one.coverage = two.coverage
  evidence : one.evidence = two.evidence
  observedAt : one.observedAt = two.observedAt
  conflicting : one.conflicting = two.conflicting
  contributors : ∀ source, source ∈ one.contributors ↔ source ∈ two.contributors

/-- Two of the answers differ in value. -/
def DifferInValue (powi : ℕ → UInt64) (answers : List FieldAnswer) : Prop :=
  ∃ one two others, answers.Perm (one :: two :: others) ∧ seenEq powi one.value two.value = false

/-- A merged field holds one of the answers, and none of them is stronger. -/
def HoldsStrongest (merged : MergedField) (answers : List FieldAnswer) : Prop :=
  (∃ answer ∈ answers, ∃ contributors conflicting,
    merged = .holding answer contributors conflicting) ∧
  ∀ answer ∈ answers, answer.strength.rank ≤ merged.strength.rank

/-- The contract of the merge, for some answers: whoever was asked first, in whatever order and
whichever side the answers came from, the merges agree on every field, each holds an answer of
maximal strength, and a conflict is noted exactly where two answers for the field differ. -/
structure MergesAlike (powi : ℕ → UInt64) (answers : List FieldAnswer) : Prop where
  agree : ∀ replayed provider replayed' provider',
    (replayed ++ provider).Perm answers → (replayed' ++ provider').Perm answers →
    Forall₂ (Agrees powi) (mergeFields powi replayed provider)
      (mergeFields powi replayed' provider')
  strongest : ∀ replayed provider, (replayed ++ provider).Perm answers →
    ∀ merged ∈ mergeFields powi replayed provider,
      HoldsStrongest merged (answersFor answers merged.field)
  conflicting_iff : ∀ replayed provider, (replayed ++ provider).Perm answers →
    ∀ merged ∈ mergeFields powi replayed provider,
      (merged.conflicting = true ↔ DifferInValue powi (answersFor answers merged.field))

/-- An answer that no other beats. -/
def Unbeaten (answers : List FieldAnswer) (answer : FieldAnswer) : Prop :=
  answer ∈ answers ∧ ∀ other ∈ answers, wins (opened answer) other = false

/-- The answers that nothing beats say the same. -/
def TopsAgree (powi : ℕ → UInt64) (answers : List FieldAnswer) : Prop :=
  ∀ one two, Unbeaten answers one → Unbeaten answers two →
    SameReading powi one.value two.value ∧ one.coverage = two.coverage ∧ one.evidence = two.evidence

/-- Whether the answers differ in value although value equality hides it from some order: they
form a ladder of answers, each beating and equal to the one before, with every other answer under
an equal one. -/
def HidesDifference (powi : ℕ → UInt64) (answers : List FieldAnswer) : Prop :=
  DifferInValue powi answers ∧ Laddered FieldAnswer.rank (FieldAnswer.same powi) answers

variable {first : FieldAnswer} {rest : List FieldAnswer}

theorem unbeaten_iff {answer : FieldAnswer} : Unbeaten answers answer ↔
    answer ∈ answers ∧ ∀ other ∈ answers, other.rank ≤ answer.rank := by
  refine and_congr_right fun _ => forall₂_congr fun other _ => ?_
  rw [opened, wins_holding, decide_eq_false_iff_not, not_lt]

theorem eq_of_rank_eq {one two : FieldAnswer} (h : one.rank = two.rank) :
    one.strength = two.strength ∧ one.observedAt = two.observedAt ∧ one.source = two.source := by
  have hstrength : one.strength.rank = two.strength.rank := congrArg Prod.fst h
  have hrest := congrArg (fun rank : ℕ ×ₗ WithBot ℤ ×ₗ Stringᵒᵈ => ofLex (ofLex rank).2) h
  have hseen : one.seenAt = two.seenAt := congrArg Prod.fst hrest
  have htext : one.source.text = two.source.text := congrArg Prod.snd hrest
  refine ⟨?_, ?_, ?_⟩
  · cases hone : one.strength <;> cases htwo : two.strength <;>
      simp_all [EvidenceStrength.rank]
  · unfold FieldAnswer.seenAt at hseen
    cases hone : one.observedAt <;> cases htwo : two.observedAt <;> simp_all
  · cases hone : one.source
    cases htwo : two.source
    simp_all

theorem answersFor_perm {answers' : List FieldAnswer} (h : answers.Perm answers') :
    (answersFor answers field).Perm (answersFor answers' field) :=
  h.filter _

theorem unbeaten_champion (hperm : answers.Perm (first :: rest)) :
    Unbeaten answers (champion FieldAnswer.rank first rest) :=
  unbeaten_iff.2 ⟨hperm.mem_iff.2 (champion_mem _ _ _), fun other hother =>
    le_champion first rest other (hperm.mem_iff.1 hother)⟩

/-- Where no two answers differ in value any two of them are equal. -/
theorem pairwise_of_not_differInValue (h : ¬ DifferInValue powi answers) :
    answers.Pairwise fun one two => FieldAnswer.same powi one two = true := by
  have hall : ∀ one two others, answers.Perm (one :: two :: others) →
      FieldAnswer.same powi one two = true := by
    intro one two others hperm
    by_contra hdiffer
    exact h ⟨one, two, others, hperm, Bool.eq_false_of_not_eq_true hdiffer⟩
  clear h
  induction answers with
  | nil => exact .nil
  | cons first rest ih =>
    refine pairwise_cons.2 ⟨fun two htwo => ?_, ih fun one two others hperm => ?_⟩
    · obtain ⟨before, after, rfl⟩ := append_of_mem htwo
      exact hall first two _ (perm_middle.cons first)
    · refine hall one two (first :: others) ((hperm.cons first).trans ?_)
      exact (Perm.swap one first _).trans ((Perm.swap two first _).cons one)

/-- Where value equality hides no difference, a conflict is noted exactly where answers differ. -/
theorem clashes_iff_differInValue (hperm : answers.Perm (first :: rest))
    (hhides : ¬ HidesDifference powi answers) :
    clashes FieldAnswer.rank (FieldAnswer.same powi) first rest = true ↔
      DifferInValue powi answers := by
  constructor
  · intro hclash
    by_contra hsame
    have hpairs : (first :: rest).Pairwise fun one two => FieldAnswer.same powi one two = true := by
      refine pairwise_of_not_differInValue fun hdiffer => hsame ?_
      obtain ⟨one, two, others, hother, hne⟩ := hdiffer
      exact ⟨one, two, others, hperm.trans hother, hne⟩
    rw [clashes_of_pairwise hpairs] at hclash
    cases hclash
  · intro hdiffer
    by_contra hquiet
    exact hhides ⟨hdiffer, exists_clashes_eq_false_iff.1
      ⟨first, rest, hperm, Bool.eq_false_of_not_eq_true hquiet⟩⟩

theorem mem_contributors_settled {source : EvidenceSource} :
    source ∈ (settled powi first rest).contributors ↔
      ∃ answer ∈ first :: rest, answer.source = source := by
  show source ∈ rest.foldl withSource [first.source] ↔ _
  rw [mem_foldl_withSource, mem_singleton, exists_mem_cons_iff, eq_comm]

/-- Two orders of the answers for a field come to the same. -/
theorem agrees_settled {first' : FieldAnswer} {rest' : List FieldAnswer}
    (hfield : ∀ answer ∈ answers, answer.field = field)
    (hperm : answers.Perm (first :: rest)) (hperm' : answers.Perm (first' :: rest'))
    (htops : TopsAgree powi answers) (hhides : ¬ HidesDifference powi answers) :
    Agrees powi (settled powi first rest) (settled powi first' rest') := by
  have htop := unbeaten_champion hperm
  have htop' := unbeaten_champion hperm'
  obtain ⟨hvalue, hcoverage, hevidence⟩ := htops _ _ htop htop'
  obtain ⟨hstrength, hseen, hsource⟩ := eq_of_rank_eq
    (le_antisymm ((unbeaten_iff.1 htop').2 _ htop.1) ((unbeaten_iff.1 htop).2 _ htop'.1))
  refine ⟨(hfield _ htop.1).trans (hfield _ htop'.1).symm, hvalue, hstrength, hsource, hcoverage,
    hevidence, hseen, ?_, fun source => ?_⟩
  · have hclash := clashes_iff_differInValue hperm hhides
    have hclash' := clashes_iff_differInValue hperm' hhides
    exact Bool.eq_iff_iff.2 (hclash.trans hclash'.symm)
  · rw [mem_contributors_settled, mem_contributors_settled]
    simp only [(hperm.symm.trans hperm').mem_iff]

theorem forall₂_of_keys_eq {α β κ : Type} {R : α → β → Prop} {f : α → κ} {g : β → κ} {as : List α}
    {bs : List β} (hkeys : as.map f = bs.map g)
    (h : ∀ a ∈ as, ∀ b ∈ bs, f a = g b → R a b) : Forall₂ R as bs := by
  induction as generalizing bs with
  | nil => simp_all
  | cons a as ih =>
    cases bs with
    | nil => simp at hkeys
    | cons b bs =>
      obtain ⟨hkey, hkeys⟩ := cons.inj hkeys
      exact .cons (h a (by simp) b (by simp) hkey) (ih hkeys fun a ha b hb =>
        h a (mem_cons_of_mem _ ha) b (mem_cons_of_mem _ hb))

theorem settled_mem {others : List FieldAnswer} (hsplit : answersFor others field = first :: rest) :
    settled powi first rest ∈ mergeFields powi [] others ∧
      (settled powi first rest).field = field := by
  have hne : answersFor others field ≠ [] := by
    rw [hsplit]
    exact cons_ne_nil _ _
  have hfield := @field_settledOf powi others field hne
  rw [hsplit, settledOf] at hfield
  refine ⟨mem_mergeFields_iff.2 ?_, hfield⟩
  rw [hfield, nil_append]
  exact ⟨hne, by rw [hsplit, settledOf]⟩

theorem MergesAlike.agrees (h : MergesAlike powi answers) {others others' : List FieldAnswer}
    {first' : FieldAnswer} {rest' : List FieldAnswer} (hperm : others.Perm answers)
    (hperm' : others'.Perm answers) (hsplit : answersFor others field = first :: rest)
    (hsplit' : answersFor others' field = first' :: rest') :
    Agrees powi (settled powi first rest) (settled powi first' rest') := by
  obtain ⟨hone, hfield⟩ := @settled_mem powi field first rest others hsplit
  obtain ⟨i, hi⟩ := mem_iff_getElem?.1 hone
  obtain ⟨merged, hmerged, hagrees⟩ := Indexed.exists_getElem?_of_forall₂
    (h.agree [] others [] others' hperm hperm') hi
  obtain ⟨-, hsettled⟩ := mem_mergeFields_iff.1 (mem_of_getElem? hmerged)
  rw [← hagrees.field, hfield, nil_append, hsplit', settledOf] at hsettled
  rwa [← hsettled]

theorem exists_order_for {first : FieldAnswer} {rest : List FieldAnswer}
    (hperm : (answersFor answers field).Perm (first :: rest)) :
    ∃ others, others.Perm answers ∧ answersFor others field = first :: rest := by
  have hfield : ∀ answer ∈ first :: rest, answer.field = field := fun answer hanswer =>
    field_of_mem_answersFor (hperm.mem_iff.2 hanswer)
  refine ⟨first :: rest ++ answers.filter (¬ ·.field = field), ?_, ?_⟩
  · refine (hperm.symm.append_right _).trans ?_
    simpa [answersFor] using filter_append_perm (fun answer => decide (answer.field = field))
      answers
  · rw [answersFor, filter_append, filter_filter, filter_eq_self.2 fun answer hmem =>
      decide_eq_true (hfield answer hmem), filter_eq_nil_iff.2 (by simp), append_nil]

theorem exists_order_from {answer : FieldAnswer} (h : answer ∈ answersFor answers field) :
    ∃ others rest, others.Perm answers ∧ answersFor others field = answer :: rest ∧
      (answersFor answers field).Perm (answer :: rest) := by
  obtain ⟨before, after, hsplit⟩ := append_of_mem h
  have hperm : (answersFor answers field).Perm (answer :: (before ++ after)) :=
    hsplit ▸ perm_middle
  obtain ⟨others, hothers, hfront⟩ := exists_order_for hperm
  exact ⟨others, before ++ after, hothers, hfront, hperm⟩

/-- **Where the merge does not depend on who was asked first.** For each field the answers that
nothing beats say the same, and no difference in value is hidden by value equality. -/
theorem mergesAlike_iff : MergesAlike powi answers ↔ ∀ field,
    TopsAgree powi (answersFor answers field) ∧ ¬ HidesDifference powi (answersFor answers field) := by
  constructor
  · intro halike field
    constructor
    · intro one two hone htwo
      obtain ⟨others, rest, hperm, hsplit, hfor⟩ := exists_order_from hone.1
      obtain ⟨others', rest', hperm', hsplit', hfor'⟩ := exists_order_from htwo.1
      have hchampion : ∀ {first : FieldAnswer} {rest : List FieldAnswer},
          Unbeaten (answersFor answers field) first →
          (answersFor answers field).Perm (first :: rest) →
          champion FieldAnswer.rank first rest = first := fun hunbeaten hfor =>
        champion_of_le fun answer hanswer => (unbeaten_iff.1 hunbeaten).2 answer
          (hfor.mem_iff.2 (mem_cons_of_mem _ hanswer))
      have hagrees := halike.agrees hperm hperm' hsplit hsplit'
      rw [settled, settled, hchampion hone hfor, hchampion htwo hfor'] at hagrees
      exact ⟨hagrees.value, hagrees.coverage, hagrees.evidence⟩
    · rintro ⟨hdiffer, hladder⟩
      obtain ⟨first, rest, hfor, hquiet⟩ := exists_clashes_eq_false_iff.2 hladder
      obtain ⟨others, hperm, hsplit⟩ := exists_order_for hfor
      obtain ⟨hmem, hfield⟩ := @settled_mem powi field first rest others hsplit
      have hconflict := halike.conflicting_iff [] others hperm _ hmem
      rw [hfield] at hconflict
      exact Bool.false_ne_true (hquiet.symm.trans (hconflict.2 hdiffer))
  · intro hcondition
    have hsettled : ∀ {replayed provider : List FieldAnswer} {merged : MergedField},
        (replayed ++ provider).Perm answers → merged ∈ mergeFields powi replayed provider →
        ∃ first rest, (answersFor answers merged.field).Perm (first :: rest) ∧
          merged = settled powi first rest := by
      intro replayed provider merged hperm hmerged
      obtain ⟨hne, heq⟩ := mem_mergeFields_iff.1 hmerged
      obtain ⟨first, rest, hsplit⟩ := exists_cons_of_ne_nil hne
      rw [hsplit, settledOf] at heq
      exact ⟨first, rest, hsplit ▸ answersFor_perm hperm.symm, heq⟩
    refine ⟨fun replayed provider replayed' provider' hperm hperm' => ?_,
      fun replayed provider hperm merged hmerged => ?_,
      fun replayed provider hperm merged hmerged => ?_⟩
    · refine forall₂_of_keys_eq (map_field_mergeFields_of_perm (hperm.trans hperm'.symm)) ?_
      intro one hone two htwo hfield
      obtain ⟨first, rest, hfor, heq⟩ := hsettled hperm hone
      obtain ⟨first', rest', hfor', heq'⟩ := hsettled hperm' htwo
      rw [← hfield] at hfor'
      rw [heq, heq']
      exact agrees_settled (fun answer => field_of_mem_answersFor) hfor hfor'
        (hcondition one.field).1 (hcondition one.field).2
    · obtain ⟨first, rest, hfor, heq⟩ := hsettled hperm hmerged
      have htop := unbeaten_iff.1 (unbeaten_champion hfor)
      refine ⟨⟨_, htop.1, _, _, heq⟩, fun answer hanswer => ?_⟩
      have hrank := htop.2 answer hanswer
      rw [heq]
      exact (Prod.Lex.le_iff.1 hrank).elim le_of_lt fun h => h.1.le
    · obtain ⟨first, rest, hfor, heq⟩ := hsettled hperm hmerged
      have hclash := clashes_iff_differInValue hfor (hcondition merged.field).2
      have hconflicting : merged.conflicting =
          clashes FieldAnswer.rank (FieldAnswer.same powi) first rest :=
        congrArg MergedField.conflicting heq
      rw [hconflicting]
      exact hclash

end Contract

/-! ### One source that answers twice -/

/-- An answer of the recorder about the state of a unit, which does not say when it was seen. -/
def recorded (state : String) : FieldAnswer where
  field := "state"
  value := some (.string state)
  strength := .asserted
  source := .recorder
  coverage := .complete
  evidence := []
  observedAt := none

/-- Of two answers of one source the one that came first stays. -/
theorem not_mergesAlike_recorded :
    ¬ MergesAlike (fun _ => 0) [recorded "running", recorded "stopped"] := by
  intro h
  have hsplit : ∀ one two, answersFor [recorded one, recorded two] "state" =
      [recorded one, recorded two] := fun _ _ => rfl
  have hagrees : Agrees (fun _ => 0) (settled _ (recorded "running") [recorded "stopped"])
      (settled _ (recorded "stopped") [recorded "running"]) :=
    h.agrees (.refl _) (.swap _ _ []) (hsplit _ _) (hsplit _ _)
  have hstays : ∀ one two, champion FieldAnswer.rank (recorded one) [recorded two] = recorded one :=
    fun one two => champion_of_le fun item hitem => (mem_singleton.1 hitem) ▸ le_rfl
  rcases hagrees.value with heq | heq
  · rw [settled, settled, hstays, hstays] at heq
    exact absurd heq (by simp [MergedField.holding, recorded])
  · rw [settled, settled, hstays, hstays] at heq
    exact absurd heq (by decide)

end OnoSendai.Temporal
