import OnoSendai.Value.Equality

/-!
# Rewriting the texts of a value

A redaction rewrites the texts of a value (`Value::map_text`): it goes through lists, maps and
records, and everything else is itself. An error that is a value is not gone through, although it
carries texts of its own: its message, what its metadata holds, and those of its causes.
-/

namespace OnoSendai.Redaction

open List

/-! ### Rewriting -/

section MapText

variable (rewrite : String → Option String)

/-- A text as `rewrite` answers for it: the replacement, else the text left alone. -/
def rewritten (text : String) : String :=
  (rewrite text).getD text

mutual

/-- A value with its texts rewritten. The keys of a map are distinct, so collecting its entries anew
keeps them as they are. -/
def mapText : Value → Value
  | .string text => .string (rewritten rewrite text)
  | .list items => .list (mapTextList items)
  | .map entries => .map (mapTextEntries entries)
  | .record schema fields extra provenance =>
    .record schema (mapTextList fields) (mapTextEntries extra) provenance
  | value => value
termination_by structural value => value

/-- The elements of a list with their texts rewritten. -/
def mapTextList : List Value → List Value
  | [] => []
  | item :: items => mapText item :: mapTextList items
termination_by structural value => value

/-- The entries of a map with their texts rewritten. -/
def mapTextEntries : List (String × Value) → List (String × Value)
  | [] => []
  | (key, value) :: entries => (key, mapText value) :: mapTextEntries entries
termination_by structural value => value

end

end MapText

/-! ### The texts of a value -/

mutual

/-- The texts of a value in order, those in its errors included: their messages, what their metadata
holds, and the same of their causes. -/
def texts : Value → List String
  | .string text => [text]
  | .list items => textsList items
  | .map entries => textsEntries entries
  | .record _ fields extra _ => textsList fields ++ textsEntries extra
  | .error error causes => textsDetail error ++ textsDetails causes
  | _ => []
termination_by structural value => value

/-- The texts of the elements of a list. -/
def textsList : List Value → List String
  | [] => []
  | item :: items => texts item ++ textsList items
termination_by structural value => value

/-- The texts of the values of a map. -/
def textsEntries : List (String × Value) → List String
  | [] => []
  | (_, value) :: entries => texts value ++ textsEntries entries
termination_by structural value => value

/-- The texts of an error, without those of its causes. -/
def textsDetail : ErrorDetail Value → List String
  | ⟨error, _, _, _, metadata⟩ => error.message :: textsEntries metadata
termination_by structural value => value

/-- The texts of a chain of errors. -/
def textsDetails : List (ErrorDetail Value) → List String
  | [] => []
  | error :: causes => textsDetail error ++ textsDetails causes
termination_by structural value => value

end

mutual

/-- The texts that the errors in a value carry. -/
def errorTexts : Value → List String
  | .list items => errorTextsList items
  | .map entries => errorTextsEntries entries
  | .record _ fields extra _ => errorTextsList fields ++ errorTextsEntries extra
  | .error error causes => texts (.error error causes)
  | _ => []
termination_by structural value => value

/-- The texts that the errors in a list carry. -/
def errorTextsList : List Value → List String
  | [] => []
  | item :: items => errorTexts item ++ errorTextsList items
termination_by structural value => value

/-- The texts that the errors in a map carry. -/
def errorTextsEntries : List (String × Value) → List String
  | [] => []
  | (_, value) :: entries => errorTexts value ++ errorTextsEntries entries
termination_by structural value => value

end

/-! ### All that is not text -/

mutual

/-- A value with nothing in the place of every text: its shape, its keys, schemas, provenance and
everything else that is not text. -/
def blank : Value → Value
  | .string _ => .string ""
  | .list items => .list (blankList items)
  | .map entries => .map (blankEntries entries)
  | .record schema fields extra provenance =>
    .record schema (blankList fields) (blankEntries extra) provenance
  | .error error causes => .error (blankDetail error) (blankDetails causes)
  | value => value
termination_by structural value => value

/-- The elements of a list with nothing in the place of every text. -/
def blankList : List Value → List Value
  | [] => []
  | item :: items => blank item :: blankList items
termination_by structural value => value

/-- The entries of a map with nothing in the place of every text. -/
def blankEntries : List (String × Value) → List (String × Value)
  | [] => []
  | (key, value) :: entries => (key, blank value) :: blankEntries entries
termination_by structural value => value

/-- An error with nothing in the place of every text. -/
def blankDetail : ErrorDetail Value → ErrorDetail Value
  | ⟨error, target, help, retryable, metadata⟩ =>
    ⟨{ error with message := "" }, target, help, retryable, blankEntries metadata⟩
termination_by structural value => value

/-- A chain of errors with nothing in the place of every text. -/
def blankDetails : List (ErrorDetail Value) → List (ErrorDetail Value)
  | [] => []
  | error :: causes => blankDetail error :: blankDetails causes
termination_by structural value => value

end

/-- What a redaction by `rewrite` is meant to do: every text of the value becomes its replacement,
or is one that is left alone, and everything other than text is unchanged. -/
structure ReachesEveryText (rewrite : String → Option String) (value : Value) : Prop where
  texts_eq : texts (mapText rewrite value) = (texts value).map (rewritten rewrite)
  blank_eq : blank (mapText rewrite value) = blank value

section Parts

variable {rewrite : String → Option String}

/-! ### What is rewritten -/

/-- What is proved of every value by induction: as many texts come out as went in, and they are the
rewritten ones exactly when the texts of errors are left alone. -/
def TextByText (rewrite : String → Option String) (value : Value) : Prop :=
  (texts (mapText rewrite value)).length = (texts value).length ∧
    (texts (mapText rewrite value) = (texts value).map (rewritten rewrite) ↔
      ∀ text ∈ errorTexts value, rewritten rewrite text = text)

/-- A list is rewritten text by text when its elements are. -/
theorem textsList_mapTextList {items : List Value} (h : ∀ item ∈ items, TextByText rewrite item) :
    (textsList (mapTextList rewrite items)).length = (textsList items).length ∧
      (textsList (mapTextList rewrite items) = (textsList items).map (rewritten rewrite) ↔
        ∀ text ∈ errorTextsList items, rewritten rewrite text = text) := by
  induction items with
  | nil => simp [mapTextList, textsList, errorTextsList]
  | cons item items ih =>
    obtain ⟨hitem, hrest⟩ := forall_mem_cons.1 h
    obtain ⟨hlength, hiff⟩ := ih hrest
    simp only [mapTextList, textsList, errorTextsList, length_append, map_append,
      forall_mem_append, hitem.1, hlength, true_and]
    rw [← hitem.2, ← hiff]
    constructor
    · exact fun heq => append_inj heq (by rw [hitem.1, length_map])
    · rintro ⟨heq, heqs⟩
      rw [heq, heqs]

variable {entries : List (String × Value)}

/-- A map is rewritten text by text when its values are. -/
theorem textsEntries_mapTextEntries (h : ∀ entry ∈ entries, TextByText rewrite entry.2) :
    (textsEntries (mapTextEntries rewrite entries)).length = (textsEntries entries).length ∧
      (textsEntries (mapTextEntries rewrite entries) =
          (textsEntries entries).map (rewritten rewrite) ↔
        ∀ text ∈ errorTextsEntries entries, rewritten rewrite text = text) := by
  induction entries with
  | nil => simp [mapTextEntries, textsEntries, errorTextsEntries]
  | cons entry entries ih =>
    obtain ⟨key, value⟩ := entry
    obtain ⟨hvalue, hrest⟩ := forall_mem_cons.1 h
    obtain ⟨hlength, hiff⟩ := ih hrest
    simp only [mapTextEntries, textsEntries, errorTextsEntries, length_append,
      map_append, forall_mem_append, hvalue.1, hlength, true_and]
    rw [← hvalue.2, ← hiff]
    constructor
    · exact fun heq => append_inj heq (by rw [hvalue.1, length_map])
    · rintro ⟨heq, heqs⟩
      rw [heq, heqs]

theorem textByText_of_isLeaf {value : Value} (h : value.IsLeaf) : TextByText rewrite value := by
  cases value with
  | string text => exact ⟨rfl, by simp [texts, mapText, errorTexts]⟩
  | list items => exact h.elim
  | map entries => exact h.elim
  | record schema fields extra provenance => exact h.elim
  | error error causes =>
    refine ⟨rfl, ?_⟩
    show texts (.error error causes) = (texts (.error error causes)).map (rewritten rewrite) ↔
      ∀ text ∈ texts (.error error causes), rewritten rewrite text = text
    constructor
    · exact fun heq => map_inj_left.1 (heq.symm.trans (map_id _).symm)
    · exact fun hsame => ((map_inj_left.2 hsame).trans (map_id _)).symm
  | _ => exact ⟨rfl, by simp [texts, mapText, errorTexts]⟩

theorem textByText (value : Value) : TextByText rewrite value := by
  induction value using Value.induction with
  | leaf value hleaf => exact textByText_of_isLeaf hleaf
  | list items ih =>
    simpa only [TextByText, mapText, texts, errorTexts] using textsList_mapTextList ih
  | map entries ih =>
    simpa only [TextByText, mapText, texts, errorTexts] using textsEntries_mapTextEntries ih
  | record schema fields extra provenance ihFields ihExtra =>
    obtain ⟨hlength, hiff⟩ := textsList_mapTextList ihFields
    obtain ⟨hlength', hiff'⟩ := textsEntries_mapTextEntries ihExtra
    simp only [TextByText, mapText, texts, errorTexts, length_append, map_append,
      forall_mem_append, hlength, hlength', true_and]
    rw [← hiff, ← hiff']
    constructor
    · exact fun heq => append_inj heq (by rw [hlength, length_map])
    · rintro ⟨heq, heqs⟩
      rw [heq, heqs]

/-! ### What is kept -/

theorem blankList_mapTextList {items : List Value}
    (h : ∀ item ∈ items, blank (mapText rewrite item) = blank item) :
    blankList (mapTextList rewrite items) = blankList items := by
  induction items with
  | nil => rfl
  | cons item items ih =>
    obtain ⟨hitem, hrest⟩ := forall_mem_cons.1 h
    rw [mapTextList, blankList, blankList, hitem, ih hrest]

theorem blankEntries_mapTextEntries
    (h : ∀ entry ∈ entries, blank (mapText rewrite entry.2) = blank entry.2) :
    blankEntries (mapTextEntries rewrite entries) = blankEntries entries := by
  induction entries with
  | nil => rfl
  | cons entry entries ih =>
    obtain ⟨key, value⟩ := entry
    obtain ⟨hvalue, hrest⟩ := forall_mem_cons.1 h
    rw [mapTextEntries, blankEntries, blankEntries, hvalue, ih hrest]

theorem blank_mapText (value : Value) : blank (mapText rewrite value) = blank value := by
  induction value using Value.induction with
  | leaf value hleaf =>
    cases value with
    | list items => exact hleaf.elim
    | map entries => exact hleaf.elim
    | record schema fields extra provenance => exact hleaf.elim
    | _ => rfl
  | list items ih => rw [mapText, blank, blank, blankList_mapTextList ih]
  | map entries ih => rw [mapText, blank, blank, blankEntries_mapTextEntries ih]
  | record schema fields extra provenance ihFields ihExtra =>
    rw [mapText, blank, blank, blankList_mapTextList ihFields, blankEntries_mapTextEntries ihExtra]

end Parts

/-! ### Every text -/

/-- **A redaction reaches every text exactly when it has nothing to do in errors.** Everything that
is not text is unchanged, and each text outside errors is rewritten; the texts of an error are
passed on as they are. -/
theorem reachesEveryText_iff {rewrite : String → Option String} {value : Value} :
    ReachesEveryText rewrite value ↔ ∀ text ∈ errorTexts value, rewritten rewrite text = text :=
  ⟨fun h => (textByText value).2.1 h.texts_eq,
    fun h => ⟨(textByText value).2.2 h, blank_mapText value⟩⟩

/-- A redaction that hides the one secret it knows of. -/
def hideToken (text : String) : Option String :=
  if text = "token=hunter2" then some "token=<redacted>" else none

/-- A list of an error that quotes the secret. -/
def failedLogin : Value :=
  .list [.error ⟨⟨.changeApplyFailed, "token=hunter2"⟩, none, none, none, []⟩ []]

theorem not_reachesEveryText_failedLogin :
    "token=hunter2" ∈ texts (mapText hideToken failedLogin) ∧
      ¬ ReachesEveryText hideToken failedLogin := by
  have hmem : "token=hunter2" ∈ texts (mapText hideToken failedLogin) := by
    simp [failedLogin, mapText, mapTextList, texts, textsList, textsDetail]
  refine ⟨hmem, fun h => ?_⟩
  rw [h.texts_eq, mem_map] at hmem
  obtain ⟨text, -, htext⟩ := hmem
  rw [rewritten, hideToken] at htext
  split_ifs at htext with hsecret
  · exact absurd htext (by simp)
  · exact hsecret htext

end OnoSendai.Redaction
