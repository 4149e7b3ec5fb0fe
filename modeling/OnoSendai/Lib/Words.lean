import Mathlib.Data.List.DropRight
import OnoSendai.Lib.Separated

/-!
# Words

The nonempty runs of a sequence between the elements that separate them, and the sequence without
the separating elements at its ends. Words that are written with a separator between them are read
back.

## Main definitions

* `words` — the nonempty runs between separating elements;
* `trimmed` — a sequence without the separating elements at its ends.
-/

namespace Separated

open List

variable {α : Type*} {p : α → Bool}

/-- The nonempty runs of a sequence between the elements that meet `p`. -/
def words (p : α → Bool) (items : List α) : List (List α) :=
  (items.splitOnP p).filter (!·.isEmpty)

/-- A sequence without the elements that meet `p` at its two ends. -/
def trimmed (p : α → Bool) (items : List α) : List α :=
  (items.dropWhile p).rdropWhile p

theorem words_eq_singleton {items : List α} (h : ∀ item ∈ items, p item = false)
    (hitems : items ≠ []) : words p items = [items] := by
  rw [words, splitOnP_eq_singleton h]
  simp [hitems]

/-- The word before the first separating element is the first word. -/
theorem words_append_cons {first rest : List α} {separator : α}
    (h : ∀ item ∈ first, p item = false) (hfirst : first ≠ []) (hseparator : p separator = true) :
    words p (first ++ separator :: rest) = first :: words p rest := by
  rw [words, splitOnP_append_cons_of_forall_mem h separator hseparator]
  simp [hfirst, words]

/-- Words with a separating element before each but the first are read back. -/
theorem words_append_headed {first : List α} {others : List (List α)} {separator : α}
    (hseparator : p separator = true)
    (h : ∀ word ∈ first :: others, word ≠ [] ∧ ∀ item ∈ word, p item = false) :
    words p (first ++ headed separator others) = first :: others := by
  induction others generalizing first with
  | nil =>
    obtain ⟨hne, hfree⟩ := h first mem_cons_self
    rw [headed, flatMap_nil, append_nil, words_eq_singleton hfree hne]
  | cons next others ih =>
    rw [forall_mem_cons] at h
    rw [headed, flatMap_cons, cons_append, words_append_cons h.1.2 h.1.1 hseparator]
    rw [← headed, ih h.2]

/-- No part of a split sequence has a separating element. -/
theorem forall_of_mem_splitOnP {items part : List α} (h : part ∈ items.splitOnP p) :
    ∀ item ∈ part, p item = false := by
  induction items generalizing part with
  | nil => simp_all
  | cons first items ih =>
    rw [splitOnP_cons_eq_if_modifyHead] at h
    by_cases hfirst : p first = true
    · rw [if_pos hfirst, mem_cons] at h
      rcases h with rfl | h
      · simp
      · exact ih h
    · rw [if_neg hfirst] at h
      obtain ⟨head, tail, hsplit⟩ := exists_cons_of_ne_nil (splitOnP_ne_nil p items)
      rw [hsplit, modifyHead_cons, mem_cons] at h
      rcases h with rfl | h
      · have hhead := ih (show head ∈ items.splitOnP p by simp [hsplit])
        simpa [hfirst] using hhead
      · exact ih (by simp [hsplit, h])

/-- What does not separate is in one of the parts. -/
theorem exists_mem_splitOnP {items : List α} {item : α} (h : item ∈ items) (hitem : p item = false) :
    ∃ part ∈ items.splitOnP p, item ∈ part := by
  induction items with
  | nil => cases h
  | cons first items ih =>
    rw [splitOnP_cons_eq_if_modifyHead]
    by_cases hfirst : p first = true
    · have hmem : item ∈ items :=
        (mem_cons.1 h).resolve_left fun heq => by simp [heq, hfirst] at hitem
      obtain ⟨part, hpart, hin⟩ := ih hmem
      exact ⟨part, by simp [hfirst, hpart], hin⟩
    · obtain ⟨head, tail, hsplit⟩ := exists_cons_of_ne_nil (splitOnP_ne_nil p items)
      rw [if_neg hfirst, hsplit, modifyHead_cons]
      rw [hsplit] at ih
      rcases mem_cons.1 h with rfl | hmem
      · exact ⟨item :: head, mem_cons_self, mem_cons_self⟩
      · obtain ⟨part, hpart, hin⟩ := ih hmem
        rcases mem_cons.1 hpart with rfl | hpart
        · exact ⟨first :: part, mem_cons_self, mem_cons_of_mem _ hin⟩
        · exact ⟨part, mem_cons_of_mem _ hpart, hin⟩

/-- A word is not empty and has no separating element. -/
theorem forall_of_mem_words {items word : List α} (h : word ∈ words p items) :
    word ≠ [] ∧ ∀ item ∈ word, p item = false := by
  rw [words, mem_filter] at h
  exact ⟨by simpa using h.2, forall_of_mem_splitOnP h.1⟩

/-- A sequence that does not begin with a separating element begins with its first word. -/
theorem words_cons {first : α} {items : List α} (h : p first = false) :
    ∃ rest others, words p (first :: items) = (first :: rest) :: others := by
  obtain ⟨head, tail, hsplit⟩ := exists_cons_of_ne_nil (splitOnP_ne_nil p items)
  refine ⟨head, tail.filter (!·.isEmpty), ?_⟩
  rw [words, splitOnP_cons_eq_if_modifyHead, if_neg (by simp [h]), hsplit]
  simp

theorem trimmed_eq {items : List α} (hhead : ∀ item ∈ items.head?, p item = false)
    (hlast : ∀ item ∈ items.getLast?, p item = false) : trimmed p items = items := by
  have hdrop : items.dropWhile p = items := by
    cases items with
    | nil => rfl
    | cons first items => simp [hhead first rfl]
  rw [trimmed, hdrop]
  cases items using reverseRecOn with
  | nil => rfl
  | append_singleton items last => simp [hlast last (by simp)]

/-- Words with a separating element between them have nothing to trim. -/
theorem trimmed_append_headed {first : List α} {others : List (List α)} {separator : α}
    (h : ∀ word ∈ first :: others, word ≠ [] ∧ ∀ item ∈ word, p item = false) :
    trimmed p (first ++ headed separator others) = first ++ headed separator others := by
  have hlast {word : List α} (hword : word ∈ first :: others) :
      ∀ item ∈ word.getLast?, p item = false := fun item hitem =>
    (h word hword).2 item (mem_of_getLast? hitem)
  refine trimmed_eq ?_ ?_
  · obtain ⟨item, rest, hfirst⟩ := exists_cons_of_ne_nil (h first mem_cons_self).1
    rintro item' hitem'
    rw [hfirst] at hitem'
    obtain rfl : item = item' := by simpa using hitem'
    exact (h first mem_cons_self).2 item (by simp [hfirst])
  · cases others using reverseRecOn with
    | nil => simpa [headed] using hlast mem_cons_self
    | append_singleton others word =>
      have hmem : word ∈ first :: (others ++ [word]) := by simp
      rw [headed, flatMap_append, flatMap_singleton, ← append_assoc,
        getLast?_append_of_ne_nil _ (cons_ne_nil _ _),
        getLast?_cons_of_ne_nil (h word hmem).1]
      exact hlast hmem

theorem of_head_trimmed {items : List α} {first : α} (h : first ∈ (trimmed p items).head?) :
    p first = false := by
  rw [trimmed] at h
  obtain ⟨removed, happend⟩ := rdropWhile_prefix p (items.dropWhile p)
  have hhead : (items.dropWhile p).head? = some first := by
    rw [← happend, head?_append, Option.mem_def.mp h, Option.some_or]
  cases hdrop : items.dropWhile p with
  | nil => simp [hdrop] at hhead
  | cons item rest =>
    have hitem : item = first := by simpa [hdrop] using hhead
    have hnot := head_dropWhile_not (p := p) (l := items) (by simp [hdrop])
    simpa [hdrop, hitem] using hnot

theorem of_getLast_trimmed {items : List α} {last : α} (h : last ∈ (trimmed p items).getLast?) :
    p last = false := by
  rw [trimmed] at h
  have hne : (items.dropWhile p).rdropWhile p ≠ [] := by
    intro hnil
    simp [hnil] at h
  have hnot := rdropWhile_last_not p (items.dropWhile p) hne
  rw [getLast?_eq_some_getLast hne, Option.mem_some_iff] at h
  simpa [h] using hnot

theorem trimmed_cons {first : α} {items : List α} (h : p first = false) :
    ∃ rest, trimmed p (first :: items) = first :: rest := by
  rw [trimmed, dropWhile_cons_of_neg (by simp [h])]
  obtain ⟨removed, happend⟩ := rdropWhile_prefix p (first :: items)
  cases hkept : (first :: items).rdropWhile p with
  | nil => exact absurd (rdropWhile_eq_nil_iff.mp hkept first mem_cons_self) (by simp [h])
  | cons kept rest =>
    rw [hkept] at happend
    exact ⟨rest, by rw [(cons.inj happend).1]⟩

end Separated
