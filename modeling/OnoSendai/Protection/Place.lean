import OnoSendai.Lib.Words
import OnoSendai.Protection.Mount

/-!
# Paths as components

A path that begins at the root stands for the components that are left when the current directory is
dropped and the parent directory is taken. Texts are compared without the slashes at their end; that
a mount contains a normalised path is that its target is written as a beginning of the components.
-/

namespace OnoSendai.Protection

open List hiding append_assoc
open String hiding append_assoc

open Separated (headed)

/-! ### Components -/

/-- A component that stands for itself. -/
structure Clean (component : String) : Prop where
  ne_empty : component.toList ≠ []
  ne_current : component.toList ≠ ['.']
  ne_parent : component.toList ≠ ['.', '.']
  slash_notMem : '/' ∉ component.toList

/-- The components of the path from the root a text stands for, where it begins there. -/
def place (text : String) : Option (List String) :=
  if startsWith text "/" then some (components [] (text.toList.splitOn '/')) else none

/-- The text that components are written as. -/
def written (parts : List String) : String :=
  "/" ++ "/".intercalate parts

theorem absolute_eq (path : String) : absolute path = (place path).map written := by
  unfold absolute place
  by_cases h : startsWith path "/" = true
  · rw [if_pos h, if_pos h]
    rfl
  · rw [if_neg h, if_neg h]
    rfl

variable {parts : List String}

/-- The components of a path stand for themselves. -/
theorem clean_of_mem_components {pieces : List (List Char)} (hparts : ∀ part ∈ parts, Clean part)
    (hpieces : ∀ piece ∈ pieces, '/' ∉ piece) : ∀ part ∈ components parts pieces, Clean part := by
  induction pieces generalizing parts with
  | nil => exact hparts
  | cons piece rest ih =>
    rw [forall_mem_cons] at hpieces
    rw [components]
    by_cases hskip : piece = [] ∨ piece = ['.']
    · rw [if_pos hskip]
      exact ih hparts hpieces.2
    · rw [if_neg hskip]
      by_cases hparent : piece = ['.', '.']
      · rw [if_pos hparent]
        exact ih (fun part hpart => hparts part (dropLast_subset parts hpart)) hpieces.2
      · rw [if_neg hparent]
        refine ih (fun part hpart => ?_) hpieces.2
        rcases mem_append.1 hpart with hpart | hpart
        · exact hparts part hpart
        · obtain rfl := mem_singleton.1 hpart
          push Not at hskip
          exact ⟨by simpa using hskip.1, by simpa using hskip.2, by simpa using hparent,
            by simpa using hpieces.1⟩

variable {text : String}

theorem clean_of_place (h : place text = some parts) : ∀ part ∈ parts, Clean part := by
  unfold place at h
  split_ifs at h
  obtain rfl := Option.some.inj h
  exact clean_of_mem_components (fun part hpart => absurd hpart not_mem_nil)
    fun piece hpiece hslash => by
      simpa using Separated.forall_of_mem_splitOnP hpiece '/' hslash

variable {parts others : List String}

theorem components_map_toList (h : ∀ part ∈ others, Clean part) :
    components parts (others.map (·.toList)) = parts ++ others := by
  induction others generalizing parts with
  | nil => simp [components]
  | cons part rest ih =>
    rw [forall_mem_cons] at h
    rw [map_cons, components, if_neg (not_or.2 ⟨h.1.ne_empty, h.1.ne_current⟩),
      if_neg h.1.ne_parent, ih h.2]
    simp

theorem components_append_nil (parts : List String) (pieces : List (List Char)) :
    components parts (pieces ++ [[]]) = components parts pieces := by
  induction pieces generalizing parts with
  | nil => simp [components]
  | cons piece rest ih => simp only [cons_append, components, ih]

/-! ### Writing -/

/-- The characters of components with a slash before each. -/
def headedChars (parts : List String) : List Char :=
  headed '/' (parts.map (·.toList))

theorem toList_written (parts : List String) :
    (written parts).toList = '/' :: ['/'].intercalate (parts.map (·.toList)) := by
  rw [written, toList_append, toList_intercalate]
  rfl

theorem toList_written_cons (part : String) (rest : List String) :
    (written (part :: rest)).toList = headedChars (part :: rest) := by
  rw [toList_written, headedChars, map_cons, Separated.headed_cons,
    Separated.intercalate_cons_eq_append_headed]

theorem startsWith_slash_iff : startsWith text "/" = true ↔ ∃ rest, text.toList = '/' :: rest := by
  rw [startsWith, isPrefixOf_iff_prefix]
  exact ⟨fun ⟨rest, h⟩ => ⟨rest, h.symm⟩, fun ⟨rest, h⟩ => ⟨rest, h.symm⟩⟩

theorem startsWith_written (parts : List String) : startsWith (written parts) "/" = true := by
  rw [startsWith, toList_written]
  rfl

/-- **What is written is read back.** -/
theorem place_written (h : ∀ part ∈ parts, Clean part) : place (written parts) = some parts := by
  have hsplit : (written parts).toList.splitOn '/' =
      [] :: (['/'].intercalate (parts.map (·.toList))).splitOn '/' := by
    rw [toList_written]
    exact splitOn_append_cons_self [] _
  rw [place, if_pos (startsWith_written parts), hsplit, components, if_pos (Or.inl rfl)]
  cases parts with
  | nil => decide
  | cons part rest =>
    have hfree : ∀ piece ∈ (part :: rest).map (·.toList), '/' ∉ piece := by
      intro piece hpiece
      obtain ⟨clean, hclean, rfl⟩ := mem_map.1 hpiece
      exact (h clean hclean).slash_notMem
    rw [splitOn_intercalate _ hfree (by simp), components_map_toList h, nil_append]

theorem absolute_absolute {path target : String} (h : absolute path = some target) :
    absolute target = some target := by
  rw [absolute_eq] at h
  obtain ⟨parts, hparts, rfl⟩ := Option.map_eq_some_iff.1 h
  rw [absolute_eq, place_written (clean_of_place hparts)]
  rfl

theorem written_inj (h : ∀ part ∈ parts, Clean part) (hothers : ∀ part ∈ others, Clean part) :
    written parts = written others ↔ parts = others := by
  constructor
  · intro heq
    have hplace := place_written h
    rw [heq, place_written hothers] at hplace
    exact (Option.some.inj hplace).symm
  · exact fun heq => heq ▸ rfl

/-! ### Spelling -/

/-- A text spells components: without the slashes at its end it is the components, each with a slash
before it. -/
def Spells (text : String) (parts : List String) : Prop :=
  trimEndSlashes text = ofList (headedChars parts)

theorem headedChars_append (parts others : List String) :
    headedChars (parts ++ others) = headedChars parts ++ headedChars others := by
  simp [headedChars, headed]

theorem rdropWhile_headedChars (h : ∀ part ∈ parts, Clean part) :
    (headedChars parts).rdropWhile (· = '/') = headedChars parts := by
  cases parts using reverseRecOn with
  | nil => rfl
  | append_singleton parts last =>
    have hclean := h last (by simp)
    have hlast : headedChars [last] = '/' :: last.toList := by simp [headedChars, headed]
    rw [headedChars_append, hlast, ← dropLast_concat_getLast hclean.ne_empty,
      ← cons_append, ← List.append_assoc]
    refine rdropWhile_concat_neg _ _ _ fun hslash => hclean.slash_notMem ?_
    have heq : last.toList.getLast hclean.ne_empty = '/' := by simpa using hslash
    exact heq ▸ getLast_mem hclean.ne_empty

theorem spells_written (h : ∀ part ∈ parts, Clean part) : Spells (written parts) parts := by
  cases parts with
  | nil =>
    unfold Spells
    decide
  | cons part rest => rw [Spells, trimEndSlashes, toList_written_cons, rdropWhile_headedChars h]

theorem components_splitOn_append (text : List Char) {slashes : List Char}
    (h : ∀ c ∈ slashes, c = '/') :
    components [] ((text ++ slashes).splitOn '/') = components [] (text.splitOn '/') := by
  induction slashes using reverseRecOn with
  | nil => rw [append_nil]
  | append_singleton slashes last ih =>
    obtain rfl := h last (by simp)
    have hsplit : (text ++ (slashes ++ ['/'])).splitOn '/' =
        (text ++ slashes).splitOn '/' ++ [[]] := by
      rw [← List.append_assoc]
      exact List.splitOn_append_cons_self _ []
    rw [hsplit, components_append_nil, ih fun c hc => h c (List.mem_append_left _ hc)]

/-- A text that is not empty stands for the components it spells. -/
theorem place_of_spells (h : ∀ part ∈ parts, Clean part) (hspells : Spells text parts)
    (hne : text ≠ "") : place text = some parts := by
  have hchars : text.toList = headedChars parts ++ text.toList.rtakeWhile (· = '/') := by
    conv_lhs => rw [← @rdropWhile_append_rtakeWhile _ (· = '/') text.toList]
    rw [← @toList_ofList (headedChars parts), ← hspells, trimEndSlashes,
      toList_ofList]
  have hslashes : ∀ c ∈ text.toList.rtakeWhile (· = '/'), c = '/' := fun c hc => by
    simpa using mem_rtakeWhile_imp hc
  have hparts : components [] (text.toList.splitOn '/') = parts := by
    rw [hchars, components_splitOn_append _ hslashes]
    cases parts with
    | nil => decide
    | cons part rest =>
      have hplace := place_written h
      rw [place, if_pos (startsWith_written _), toList_written_cons] at hplace
      exact Option.some.inj hplace
  have hstarts : startsWith text "/" = true := by
    rw [startsWith_slash_iff]
    cases parts with
    | nil =>
      cases htext : text.toList with
      | nil => exact absurd (toList_eq_nil_iff.1 htext) hne
      | cons c rest =>
        rw [show headedChars [] = [] from rfl, nil_append] at hchars
        have hmem : c ∈ text.toList.rtakeWhile (· = '/') := by
          rw [← hchars, htext]
          exact mem_cons_self
        exact ⟨rest, by rw [hslashes c hmem]⟩
    | cons part rest => exact ⟨_, hchars⟩
  rw [place, if_pos hstarts, hparts]

/-- **A mount contains a normalised path** when its target spells a beginning of it. -/
theorem contains_written_iff {target : String} (h : ∀ part ∈ parts, Clean part) :
    contains target (written parts) = true ↔ ∃ point, point <+: parts ∧ Spells target point := by
  have htrimmed : (trimEndSlashes target).toList.rdropWhile (· = '/') =
      (trimEndSlashes target).toList := by
    rw [trimEndSlashes, toList_ofList, rdropWhile_idempotent]
  unfold contains Spells
  generalize trimEndSlashes target = text at htrimmed ⊢
  by_cases hempty : text = ""
  · subst hempty
    rw [if_pos rfl]
    exact iff_of_true (startsWith_written parts) ⟨[], nil_prefix, rfl⟩
  · have hchars : text.toList ≠ [] := fun hnil => hempty (toList_eq_nil_iff.1 hnil)
    rw [if_neg hempty, Bool.or_eq_true, decide_eq_true_eq, startsWith, toList_append,
      isPrefixOf_iff_prefix]
    cases parts with
    | nil =>
      have hroot : (written []).toList = ['/'] := by decide
      refine iff_of_false ?_ ?_
      · rintro (rfl | ⟨rest, hrest⟩)
        · rw [hroot] at htrimmed
          exact absurd htrimmed (by decide)
        · rw [hroot, List.append_assoc] at hrest
          obtain ⟨c, others, hcons⟩ := List.exists_cons_of_ne_nil hchars
          simp [hcons] at hrest
      · rintro ⟨point, hpoint, hspells⟩
        obtain rfl := prefix_nil.1 hpoint
        exact hempty hspells
    | cons part others =>
      constructor
      · rintro (heq | ⟨rest, hrest⟩)
        · refine ⟨part :: others, prefix_rfl, ?_⟩
          rw [← toList_written_cons, String.ofList_toList, heq]
        · rw [toList_written_cons, List.append_assoc] at hrest
          have hfree : ∀ piece ∈ (part :: others).map (·.toList), '/' ∉ piece := by
            intro piece hpiece
            obtain ⟨clean, hclean, rfl⟩ := mem_map.1 hpiece
            exact (h clean hclean).slash_notMem
          obtain ⟨pieces, hpieces, hfirst⟩ := Separated.exists_prefix_of_headed hfree hrest.symm
          obtain hpieces := prefix_iff_eq_take.1 hpieces
          rw [← map_take] at hpieces
          refine ⟨_, take_prefix pieces.length (part :: others), ?_⟩
          rw [headedChars, ← hpieces, ← hfirst, ofList_toList]
      · rintro ⟨point, ⟨rest, hrest⟩, hspells⟩
        have htext : text.toList = headedChars point := by
          rw [hspells, toList_ofList]
        cases rest with
        | nil =>
          left
          rw [append_nil] at hrest
          rw [hspells, hrest, ← toList_written_cons, ofList_toList]
        | cons next rest =>
          right
          rw [htext, toList_written_cons, ← hrest, headedChars_append]
          exact prefix_append_right_inj _ |>.2 ⟨_, rfl⟩

theorem spells_unique (h : ∀ part ∈ parts, Clean part) (hothers : ∀ part ∈ others, Clean part)
    (hspells : Spells text parts) (hspells' : Spells text others) : parts = others := by
  have hfree {parts : List String} (h : ∀ part ∈ parts, Clean part) :
      ∀ piece ∈ parts.map (·.toList), '/' ∉ piece := by
    intro piece hpiece
    obtain ⟨clean, hclean, rfl⟩ := mem_map.1 hpiece
    exact (h clean hclean).slash_notMem
  have hchars : headedChars parts = headedChars others :=
    ofList_injective (hspells.symm.trans hspells')
  have hmap := (Separated.headed_inj (hfree h) (hfree hothers)).1 hchars
  exact map_injective_iff.2 (fun a b => toList_inj.1) hmap

theorem contains_iff_prefix (h : ∀ part ∈ parts, Clean part)
    (hothers : ∀ part ∈ others, Clean part) :
    contains (written parts) (written others) = true ↔ parts <+: others := by
  rw [contains_written_iff hothers]
  constructor
  · rintro ⟨point, hpoint, hspells⟩
    have hclean : ∀ part ∈ point, Clean part := fun part hpart => hothers part (hpoint.subset hpart)
    rwa [spells_unique h hclean (spells_written h) hspells]
  · exact fun hprefix => ⟨parts, hprefix, spells_written h⟩

/-- Of two texts that spell one a beginning of the other, the shorter is no longer, and as long only
where they spell the same. -/
theorem size_le_of_spells {text text' : String} {parts parts' : List String}
    (h : ∀ part ∈ parts', Clean part) (hspells : Spells text parts)
    (hspells' : Spells text' parts') (hprefix' : parts <+: parts') :
    (trimEndSlashes text).utf8ByteSize ≤ (trimEndSlashes text').utf8ByteSize ∧
      ((trimEndSlashes text').utf8ByteSize ≤ (trimEndSlashes text).utf8ByteSize →
        parts = parts') := by
  obtain ⟨rest, rfl⟩ := hprefix'
  rw [hspells, hspells', headedChars_append, ofList_append, utf8ByteSize_append]
  refine ⟨Nat.le_add_right _ _, fun hle => ?_⟩
  have hzero : (ofList (headedChars rest)).utf8ByteSize = 0 := by omega
  rw [utf8ByteSize_eq_zero_iff] at hzero
  cases rest with
  | nil => rw [append_nil]
  | cons next rest =>
    have hnil : headedChars (next :: rest) = [] := by
      rw [← @toList_ofList (headedChars (next :: rest)), hzero]
      rfl
    simp [headedChars, Separated.headed_cons] at hnil

end OnoSendai.Protection
