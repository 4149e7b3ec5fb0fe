import Mathlib.Data.List.Forall2
import OnoSendai.Link.Trust

/-!
# The file of authorized clients

The store of a listening agent is a file with one line for each client: its fingerprint, whether it
may observe, the capabilities it may use, and a name (`ono_protocol::authorization`). A line that
is not an entry refuses the whole file. The name is written as it is, and what it holds is read
back field by field.
-/

namespace OnoSendai.Link

open List Separated
open String hiding append_assoc map_map

/-! ### Fields of a line -/

/-- The two sides of the first separator. -/
def splitOnce (separator : Char) : List Char → Option (List Char × List Char)
  | [] => none
  | c :: rest =>
    if c = separator then some ([], rest)
    else (splitOnce separator rest).map fun sides => (c :: sides.1, sides.2)

theorem splitOnce_append {separator : Char} {name : List Char} (value : List Char)
    (h : separator ∉ name) : splitOnce separator (name ++ separator :: value) = some (name, value) := by
  induction name with
  | nil => simp [splitOnce]
  | cons c name ih =>
    rw [mem_cons, not_or] at h
    simp [splitOnce, Ne.symm h.1, ih h.2]

theorem eq_of_splitOnce {separator : Char} {text name value : List Char}
    (h : splitOnce separator text = some (name, value)) : text = name ++ separator :: value := by
  induction text generalizing name with
  | nil => cases h
  | cons c text ih =>
    rw [splitOnce] at h
    split_ifs at h with hc
    · cases h
      rw [hc, nil_append]
    · obtain ⟨⟨front, back⟩, hsides, hpair⟩ := Option.map_eq_some_iff.1 h
      cases hpair
      rw [ih hsides, cons_append]

/-! ### Grants -/

namespace ActionGrant

/-- The refusal of a text that is not a capability identifier. -/
def malformed (text : String) : ErrorValue where
  code := .other "remote.authorization_store_invalid"
  message := "`" ++ text ++ "` is not a capability id, so it cannot be granted"

/-- Reads a grant. -/
def fromStr (text : String) : Except ErrorValue ActionGrant :=
  if h : isCapabilityId text = true then .ok ⟨text, h⟩ else .error (malformed text)

/-- Puts a grant into a set of grants, which is kept in the order of their identifiers. -/
def insert (grant : ActionGrant) : List ActionGrant → List ActionGrant
  | [] => [grant]
  | first :: rest =>
    if grant.id < first.id then grant :: first :: rest
    else if grant.id = first.id then first :: rest
    else first :: insert grant rest

end ActionGrant

/-- The entry of a client whose grants are in the order of their identifiers, none of them twice:
the grants are a set. -/
def AuthorizedClient.Ordered (entry : AuthorizedClient) : Prop :=
  entry.actions.Pairwise (·.id < ·.id)

namespace AuthorizedClients

/-! ### The file -/

/-- The lines of the header. -/
def headerLines : List (List Char) :=
  ['#' :: (" ono authorized clients: one line per client key, strictly parsed " ++
      "(v0.4.1 section 9.2).").toList,
    '#' :: (" `<sha256 fingerprint> observe=<true|false> [actions=<id>,<id>…] " ++
      "[label=<name>]`").toList,
    '#' :: (" An action grant names one exact capability id; there is no wildcard and no " ++
      "risk class.").toList,
    '#' :: (" A malformed line refuses the whole file: this store is never read as an " ++
      "empty one.").toList]

/-- The header written above the entries. -/
def fileHeader : String :=
  ofList (terminated '\n' headerLines)

/-- The line of an entry, without its end. -/
def line (entry : AuthorizedClient) : String :=
  entry.fingerprint.text ++
    (if entry.observe then " observe=true" else " observe=false") ++
    (if entry.actions.isEmpty then ""
      else " actions=" ++ ",".intercalate (entry.actions.map ActionGrant.id)) ++
    (match entry.label with
      | some label => " label=" ++ label
      | none => "")

/-- The text of the file. -/
def render (entries : List AuthorizedClient) : String :=
  fileHeader ++ join (entries.map fun entry => line entry ++ "\n")

/-- What the fields of a line have said so far. -/
structure Fields where
  observe : Option Bool
  actions : Option (List ActionGrant)
  label : Option String

/-- The grants that a list of identifiers adds to a set. -/
def granted : List ActionGrant → List (List Char) → Except String (List ActionGrant)
  | actions, [] => .ok actions
  | actions, id :: ids =>
    match ActionGrant.fromStr (String.ofList id) with
    | .ok grant => granted (grant.insert actions) ids
    | .error error => .error error.message

/-- The refusal of a field that is given a second time. -/
def twice (name : String) : String :=
  "`" ++ name ++ "` is given twice on one entry"

/-- Reads whether a client may observe. -/
def observed (value : List Char) : Except String Bool :=
  if value = "true".toList then .ok true
  else if value = "false".toList then .ok false
  else .error ("`observe=" ++ ofList value ++ "` is neither `true` nor `false`")

/-- Takes a field in. -/
def Fields.take (fields : Fields) (field : List Char) : Except String Fields :=
  match splitOnce '=' field with
  | none =>
    .error ("`" ++ ofList field ++ "` is not a `name=value` field; an entry is " ++
      "`<fingerprint> observe=… [actions=…] [label=…]`")
  | some (name, value) =>
    if name = "observe".toList then
      match observed value with
      | .error detail => .error detail
      | .ok parsed =>
        if fields.observe.isSome then .error (twice "observe")
        else .ok { fields with observe := some parsed }
    else if name = "actions".toList then
      match granted [] (words (· = ',') value) with
      | .error detail => .error detail
      | .ok actions =>
        if fields.actions.isSome then .error (twice "actions")
        else .ok { fields with actions := some actions }
    else if name = "label".toList then
      if fields.label.isSome then .error (twice "label")
      else .ok { fields with label := some (ofList value) }
    else
      .error ("`" ++ ofList name ++ "` is not a field of an authorization entry. The " ++
        "fields are `observe`, `actions` and `label`; an unknown one is refused rather than " ++
        "ignored, because a field this build does not understand may be the one that was " ++
        "meant to restrict something (v0.4.1 section 9.3).")

/-- Takes fields in, one after another. -/
def Fields.takeAll : Fields → List (List Char) → Except String Fields
  | fields, [] => .ok fields
  | fields, field :: others =>
    match fields.take field with
    | .error detail => .error detail
    | .ok fields => takeAll fields others

/-- Reads one line. -/
def parseEntry (line : List Char) : Except String AuthorizedClient :=
  match words isWhitespace line with
  | [] => .error "an entry begins with the client's fingerprint"
  | first :: others =>
    match Fingerprint.fromStr first with
    | .error error => .error error.message
    | .ok fingerprint =>
      match Fields.takeAll ⟨none, none, none⟩ others with
      | .error detail => .error detail
      | .ok ⟨none, _, _⟩ =>
        .error ("an entry says `observe=true` or `observe=false`; leaving it out would make " ++
          "the weakest grant depend on a default nobody wrote down")
      | .ok ⟨some observe, actions, label⟩ =>
        .ok ⟨fingerprint, label, observe, actions.getD []⟩

/-- The refusal of a file for one of its lines. -/
def malformed (path : String) (line : Nat) (detail : String) : ErrorValue where
  code := .other "remote.authorization_store_invalid"
  message := path ++ ": line " ++ toString line ++ " is not an authorization entry — " ++ detail

/-- The refusal of a fingerprint that is listed a second time. -/
def listedTwice : String :=
  "this fingerprint is already listed above, and two grants for one key would leave which of " ++
    "them applies to the order of the file"

/-- Reads lines numbered from an index, after the entries above them. -/
def parseLines (path : String) :
    List AuthorizedClient → Nat → List (List Char) → Except ErrorValue (List AuthorizedClient)
  | entries, _, [] => .ok entries
  | entries, index, line :: lines =>
    let line := trimmed isWhitespace line
    if line = [] ∨ line.head? = some '#' then
      parseLines path entries (index + 1) lines
    else
      match parseEntry line with
      | .error detail => .error (malformed path (index + 1) detail)
      | .ok entry =>
        if entries.any fun existing => existing.fingerprint = entry.fingerprint then
          .error (malformed path (index + 1) listedTwice)
        else
          parseLines path (entries ++ [entry]) (index + 1) lines

/-- Reads the text of the file. -/
def parse (text : String) (path : String) : Except ErrorValue (List AuthorizedClient) :=
  parseLines path [] 0 (lines text.toList)

/-! ### Reading back -/

variable {actions : List ActionGrant}

section ReadBack

variable {path : String} {entry : AuthorizedClient} {entries : List AuthorizedClient}

/-- A name without white space, where there is one. -/
def Solid (label : Option String) : Prop :=
  ∀ name ∈ label, ∀ c ∈ name.toList, isWhitespace c = false

theorem isWhitespace_of_isCapabilityChar {c : Char} (h : isCapabilityChar c = true) :
    isWhitespace c = false ∧ c ≠ ',' := by
  have hrange : (0x61 ≤ c.toNat ∧ c.toNat ≤ 0x7a) ∨ (0x30 ≤ c.toNat ∧ c.toNat ≤ 0x39) ∨
      c.toNat = 0x2d := by
    simp only [isCapabilityChar, Bool.or_eq_true, Bool.and_eq_true, decide_eq_true_eq,
      beq_iff_eq] at h
    rcases h with (⟨hlow, hhigh⟩ | ⟨hlow, hhigh⟩) | rfl
    · exact .inl ⟨hlow, hhigh⟩
    · exact .inr (.inl ⟨hlow, hhigh⟩)
    · exact .inr (.inr rfl)
  refine ⟨?_, ?_⟩
  · simp only [isWhitespace, Bool.or_eq_false_iff, Bool.and_eq_false_iff, decide_eq_false_iff_not]
    omega
  · rintro rfl
    revert hrange
    decide

theorem free_of_isCapabilityId {id : String} (h : isCapabilityId id = true) :
    id.toList ≠ [] ∧ ∀ c ∈ id.toList, isWhitespace c = false ∧ c ≠ ',' := by
  simp only [isCapabilityId, Bool.and_eq_true, decide_eq_true_eq, all_eq_true] at h
  refine ⟨fun hnil => ?_, fun c hc => ?_⟩
  · rw [hnil] at h
    exact absurd h.1 (by decide)
  · by_cases hdot : (c == '.') = true
    · obtain rfl := beq_iff_eq.1 hdot
      decide
    · obtain ⟨segment, hsegment, hmem⟩ :=
        Separated.exists_mem_splitOnP (p := (· == '.')) hc (by simpa using hdot)
      exact isWhitespace_of_isCapabilityChar ((h.2 segment hsegment).2 c hmem)

/-- The field that says whether a client may observe. -/
def observeField (observe : Bool) : List Char :=
  "observe=".toList ++ (if observe then "true" else "false").toList

/-- The identifiers of grants, as they are written. -/
def idsText (actions : List ActionGrant) : List Char :=
  [','].intercalate (actions.map (·.id.toList))

/-- The fields that are written after the fingerprint. -/
def fieldWords (entry : AuthorizedClient) : List (List Char) :=
  observeField entry.observe ::
    ((if entry.actions = [] then [] else ["actions=".toList ++ idsText entry.actions]) ++
      entry.label.toList.map ("label=".toList ++ ·.toList))

theorem toList_line (entry : AuthorizedClient) :
    (line entry).toList =
      entry.fingerprint.text.toList ++ Separated.headed ' ' (fieldWords entry) := by
  have hobserve : (if entry.observe then " observe=true" else " observe=false").toList =
      Separated.headed ' ' [observeField entry.observe] := by
    cases entry.observe <;> rfl
  have hactions : (if entry.actions.isEmpty then ""
        else " actions=" ++ ",".intercalate (entry.actions.map ActionGrant.id)).toList =
      Separated.headed ' '
        (if entry.actions = [] then [] else ["actions=".toList ++ idsText entry.actions]) := by
    by_cases hempty : entry.actions = []
    · simp [hempty, headed]
    · rw [if_neg (by simpa using hempty), if_neg hempty, toList_append, toList_intercalate, map_map]
      simp [headed, idsText, Function.comp_def]
  have hlabel : (match entry.label with | some label => " label=" ++ label | none => "").toList =
      headed ' ' (entry.label.toList.map ("label=".toList ++ ·.toList)) := by
    cases entry.label <;> simp [headed]
  rw [line, toList_append, toList_append, toList_append, hobserve, hactions,
    hlabel]
  simp only [fieldWords, headed, flatMap_cons, flatMap_nil, append_nil,
    flatMap_append, append_assoc, cons_append]

theorem free_idsText : ∀ c ∈ idsText actions, isWhitespace c = false := by
  intro c hc
  cases actions with
  | nil => cases hc
  | cons first others =>
    have hgrant (grant : ActionGrant) {c : Char} (h : c ∈ grant.id.toList) :=
      ((free_of_isCapabilityId grant.wellFormed).2 c h).1
    rw [idsText, map_cons, intercalate_cons_eq_append_headed, mem_append,
      headed, mem_flatMap] at hc
    rcases hc with hc | ⟨part, hpart, hc⟩
    · exact hgrant first hc
    · obtain ⟨grant, -, rfl⟩ := mem_map.1 hpart
      rcases mem_cons.1 hc with rfl | hc
      · decide
      · exact hgrant grant hc

/-- The fields of an entry whose name has no white space are words. -/
theorem free_fieldWords (h : Solid entry.label) {word : List Char} (hword : word ∈ fieldWords entry) :
    word ≠ [] ∧ ∀ c ∈ word, isWhitespace c = false := by
  simp only [fieldWords, mem_cons, mem_append, mem_map, Option.mem_toList] at hword
  have happend {front back : List Char} (hfront : front ≠ [] ∧ ∀ c ∈ front, isWhitespace c = false)
      (hback : ∀ c ∈ back, isWhitespace c = false) :
      front ++ back ≠ [] ∧ ∀ c ∈ front ++ back, isWhitespace c = false := by
    refine ⟨by simp [hfront.1], fun c hc => ?_⟩
    rcases mem_append.1 hc with hc | hc
    · exact hfront.2 c hc
    · exact hback c hc
  rcases hword with rfl | hword | ⟨name, hname, rfl⟩
  · cases entry.observe <;> exact ⟨by decide, forall_isWhitespace_eq_false (by decide)⟩
  · split_ifs at hword with hactions
    · cases hword
    · obtain rfl := mem_singleton.1 hword
      exact happend ⟨by decide, forall_isWhitespace_eq_false (by decide)⟩ free_idsText
  · exact happend ⟨by decide, forall_isWhitespace_eq_false (by decide)⟩ (h name hname)

theorem words_line (h : Solid entry.label) :
    words isWhitespace (line entry).toList = entry.fingerprint.text.toList :: fieldWords entry := by
  rw [toList_line]
  refine words_append_headed (by decide) fun word hword => ?_
  rcases mem_cons.1 hword with rfl | hword
  · exact ⟨text_ne_nil _, isWhitespace_of_mem_text _⟩
  · exact free_fieldWords h hword

theorem insert_of_forall_lt {grant : ActionGrant} (h : ∀ other ∈ actions, other.id < grant.id) :
    grant.insert actions = actions ++ [grant] := by
  induction actions with
  | nil => rfl
  | cons first rest ih =>
    rw [forall_mem_cons] at h
    have hne : grant.id ≠ first.id := fun heq => String.lt_irrefl _ (heq ▸ h.1)
    rw [ActionGrant.insert, if_neg (String.lt_asymm h.1), if_neg hne, ih h.2, cons_append]

theorem granted_of_pairwise {front back : List ActionGrant}
    (h : (front ++ back).Pairwise (·.id < ·.id)) :
    granted front (back.map (·.id.toList)) = .ok (front ++ back) := by
  induction back generalizing front with
  | nil => simp [granted]
  | cons grant back ih =>
    have hlast : ∀ other ∈ front, other.id < grant.id := fun other hother =>
      (pairwise_append.1 h).2.2 other hother grant mem_cons_self
    have hread : ActionGrant.fromStr (ofList grant.id.toList) = .ok grant := by
      rw [ofList_toList, ActionGrant.fromStr, dif_pos grant.wellFormed]
    rw [map_cons, granted, hread]
    simp only [insert_of_forall_lt hlast]
    rw [ih (by simpa using h)]
    simp

theorem words_idsText (actions : List ActionGrant) :
    words (· = ',') (idsText actions) = actions.map (·.id.toList) := by
  cases actions with
  | nil => rfl
  | cons first others =>
    rw [idsText, map_cons, intercalate_cons_eq_append_headed]
    refine words_append_headed (by decide) fun word hword => ?_
    have hmem : word ∈ (first :: others).map (·.id.toList) := hword
    obtain ⟨grant, -, rfl⟩ := mem_map.1 hmem
    have hfree := free_of_isCapabilityId grant.wellFormed
    exact ⟨hfree.1, fun c hc => by simpa using (hfree.2 c hc).2⟩

theorem splitOnce_field {name : String} (value : List Char) (h : '=' ∉ name.toList) :
    splitOnce '=' ((name ++ "=").toList ++ value) = some (name.toList, value) := by
  rw [String.toList_append, append_assoc]
  exact splitOnce_append value h

theorem take_observeField (observe : Bool) :
    Fields.take ⟨none, none, none⟩ (observeField observe) = .ok ⟨some observe, none, none⟩ := by
  cases observe <;> rfl

theorem take_actions (h : actions.Pairwise (·.id < ·.id)) (observe : Option Bool) :
    Fields.take ⟨observe, none, none⟩ ("actions=".toList ++ idsText actions) =
      .ok ⟨observe, some actions, none⟩ := by
  have hsplit := @splitOnce_field "actions" (idsText actions) (by decide)
  have hgranted := @granted_of_pairwise [] actions (by simpa using h)
  rw [Fields.take, show "actions=" = "actions" ++ "=" from rfl, hsplit]
  simp only [show "actions".toList ≠ "observe".toList by decide, if_false, if_true, words_idsText,
    hgranted]
  rfl

theorem take_label (observe : Option Bool) (actions : Option (List ActionGrant)) (name : String) :
    Fields.take ⟨observe, actions, none⟩ ("label=".toList ++ name.toList) =
      .ok ⟨observe, actions, some name⟩ := by
  have hsplit := @splitOnce_field "label" name.toList (by decide)
  rw [Fields.take, show "label=" = "label" ++ "=" from rfl, hsplit]
  simp only [show "label".toList ≠ "observe".toList by decide,
    show "label".toList ≠ "actions".toList by decide, if_false, if_true, ofList_toList]
  rfl

/-- The fields of an entry are read back. -/
theorem takeAll_fieldWords (h : entry.Ordered) :
    Fields.takeAll ⟨none, none, none⟩ (fieldWords entry) =
      .ok ⟨some entry.observe, if entry.actions = [] then none else some entry.actions,
        entry.label⟩ := by
  have hlabel (observe : Option Bool) (actions : Option (List ActionGrant)) :
      Fields.takeAll ⟨observe, actions, none⟩
        (entry.label.toList.map ("label=".toList ++ ·.toList)) =
          .ok ⟨observe, actions, entry.label⟩ := by
    cases entry.label with
    | none => rfl
    | some name =>
      rw [Option.toList_some, map_singleton, Fields.takeAll, take_label]
      rfl
  rw [fieldWords, Fields.takeAll, take_observeField]
  by_cases hactions : entry.actions = []
  · rw [if_pos hactions, if_pos hactions, nil_append]
    exact hlabel _ _
  · rw [if_neg hactions, if_neg hactions, singleton_append]
    dsimp only
    rw [Fields.takeAll, take_actions h]
    exact hlabel _ _

/-- **A written line is read back**, where the name has no white space. -/
theorem parseEntry_line (h : entry.Ordered) (hsolid : Solid entry.label) :
    parseEntry (line entry).toList = .ok entry := by
  rw [parseEntry, words_line hsolid]
  simp only [Fingerprint.fromStr_text, takeAll_fieldWords h]
  obtain ⟨fingerprint, label, observe, actions⟩ := entry
  cases actions <;> rfl

theorem free_words_line (h : Solid entry.label) :
    ∀ word ∈ entry.fingerprint.text.toList :: fieldWords entry,
      word ≠ [] ∧ ∀ c ∈ word, isWhitespace c = false := by
  refine forall_mem_cons.2 ⟨⟨text_ne_nil _, isWhitespace_of_mem_text _⟩, fun word hword => ?_⟩
  exact free_fieldWords h hword

theorem not_mem_line (h : Solid entry.label) : '\n' ∉ (line entry).toList := by
  intro hmem
  have hfree := free_words_line h
  rw [toList_line, mem_append, headed, mem_flatMap] at hmem
  rcases hmem with hmem | ⟨word, hword, hmem⟩
  · exact absurd ((hfree _ mem_cons_self).2 _ hmem) (by decide)
  · rcases mem_cons.1 hmem with hmem | hmem
    · exact absurd hmem (by decide)
    · exact absurd ((hfree _ (mem_cons_of_mem _ hword)).2 _ hmem) (by decide)

theorem trimmed_line (h : Solid entry.label) :
    trimmed isWhitespace (line entry).toList = (line entry).toList := by
  rw [toList_line]
  exact trimmed_append_headed (free_words_line h)

theorem withoutReturn_line (h : Solid entry.label) :
    withoutReturn (line entry).toList = (line entry).toList := by
  refine if_neg fun hlast => ?_
  have hlast' := of_getLast_trimmed (p := isWhitespace)
    (show '\r' ∈ (trimmed isWhitespace (line entry).toList).getLast? by
      rw [trimmed_line h]
      exact hlast)
  exact absurd hlast' (by decide)

/-- Written lines are read one after another. -/
theorem parseLines_lines {front back : List AuthorizedClient} {index : Nat}
    (hback : ∀ entry ∈ back, entry.Ordered ∧ Solid entry.label)
    (hnodup : ((front ++ back).map (·.fingerprint)).Nodup) :
    parseLines path front index (back.map fun entry => (line entry).toList) =
      .ok (front ++ back) := by
  induction back generalizing front index with
  | nil => simp [parseLines]
  | cons entry back ih =>
    obtain ⟨⟨hordered, hsolid⟩, hrest⟩ := forall_mem_cons.1 hback
    obtain ⟨rest, hline⟩ : ∃ rest, (line entry).toList = 's' :: rest := by
      rw [toList_line, Link.toList_text]
      exact ⟨_, rfl⟩
    have hnew : (front.any fun existing => existing.fingerprint = entry.fingerprint) = false := by
      rw [any_eq_false]
      intro existing hexisting heq
      rw [map_append, nodup_append] at hnodup
      exact hnodup.2.2 _ (mem_map_of_mem hexisting) _ (mem_cons_self)
        (of_decide_eq_true heq)
    have hskip : ¬((line entry).toList = [] ∨ (line entry).toList.head? = some '#') := by
      rw [hline]
      simp
    rw [map_cons, parseLines, trimmed_line hsolid, if_neg hskip]
    simp only [parseEntry_line hordered hsolid, hnew, Bool.false_eq_true, if_false]
    rw [ih hrest (by simpa using hnodup)]
    simp

theorem toList_render (entries : List AuthorizedClient) :
    (render entries).toList =
      terminated '\n' (headerLines ++ entries.map fun entry => (line entry).toList) := by
  rw [render, toList_append, fileHeader, toList_ofList, toList_join_map]
  simp only [terminated, flatMap_append]

theorem parseLines_comments {comments : List (List Char)} {index : Nat}
    (h : ∀ comment ∈ comments, ∃ rest, comment = '#' :: rest) (rest : List (List Char)) :
    parseLines path entries index (comments ++ rest) =
      parseLines path entries (index + comments.length) rest := by
  induction comments generalizing index with
  | nil => rfl
  | cons comment comments ih =>
    obtain ⟨⟨tail, rfl⟩, hcomments⟩ := forall_mem_cons.1 h
    obtain ⟨kept, htrimmed⟩ : ∃ kept, trimmed isWhitespace ('#' :: tail) = '#' :: kept :=
      trimmed_cons (by decide)
    rw [cons_append, parseLines, htrimmed, if_pos (.inr rfl), ih hcomments, length_cons,
      Nat.add_right_comm, Nat.add_assoc]

/-- **Written entries are read back** where no name has white space in it. -/
theorem parse_render (h : ∀ entry ∈ entries, entry.Ordered ∧ Solid entry.label)
    (hnodup : (entries.map (·.fingerprint)).Nodup) (path : String) :
    parse (render entries) path = .ok entries := by
  have hheader : ∀ comment ∈ headerLines, ∃ rest, comment = '#' :: rest := by
    intro comment hcomment
    simp only [headerLines, mem_cons, not_mem_nil, or_false] at hcomment
    rcases hcomment with rfl | rfl | rfl | rfl <;> exact ⟨_, rfl⟩
  have hcomments : ∀ comment ∈ headerLines.map withoutReturn, ∃ rest, comment = '#' :: rest := by
    intro comment hcomment
    obtain ⟨comment, hmem, rfl⟩ := mem_map.1 hcomment
    obtain ⟨rest, rfl⟩ := hheader comment hmem
    exact exists_withoutReturn_cons rest (by decide)
  have hfeeds : ∀ part ∈ headerLines ++ entries.map fun entry => (line entry).toList,
      '\n' ∉ part := by
    intro part hpart
    rcases mem_append.mp hpart with hpart | hpart
    · have hlines : ∀ line ∈ headerLines, '\n' ∉ line := by
        simp only [headerLines, forall_mem_cons, toList_append]
        simp only [mem_cons, mem_append, not_or]
        exact ⟨⟨by decide, notMem_toList (by decide), notMem_toList (by decide)⟩,
          ⟨by decide, notMem_toList (by decide), notMem_toList (by decide)⟩,
          ⟨by decide, notMem_toList (by decide), notMem_toList (by decide)⟩,
          ⟨by decide, notMem_toList (by decide), notMem_toList (by decide)⟩, nofun⟩
      exact hlines part hpart
    · obtain ⟨entry, hentry, rfl⟩ := mem_map.mp hpart
      exact not_mem_line (h entry hentry).2
  have hentries : (entries.map fun entry => (line entry).toList).map withoutReturn =
      entries.map fun entry => (line entry).toList := by
    rw [map_map]
    exact map_congr_left fun entry hentry => withoutReturn_line (h entry hentry).2
  rw [parse, toList_render, lines_terminated hfeeds, map_append, hentries,
    parseLines_comments hcomments]
  exact parseLines_lines h hnodup

end ReadBack

/-! ### What a file says -/

/-- The lines that are entries: not blank, and no comments. -/
def contentLines (text : String) : List (List Char) :=
  ((lines text.toList).map (trimmed isWhitespace)).filter fun line =>
    !(line.isEmpty || line.head? == some '#')

/-- What a line says: its first word is the fingerprint, and everything else of the entry stands in
a field. -/
structure Says (line : List Char) (entry : AuthorizedClient) : Prop where
  fingerprint : ∃ first ∈ (words isWhitespace line).head?,
    Fingerprint.fromStr first = .ok entry.fingerprint
  observe : observeField entry.observe ∈ words isWhitespace line
  label : ∀ name ∈ entry.label, "label=".toList ++ name.toList ∈ words isWhitespace line
  actions : ∀ grant ∈ entry.actions, ∃ ids,
    "actions=".toList ++ ids ∈ words isWhitespace line ∧ grant.id.toList ∈ words (· = ',') ids

/-- What was taken in of a line stands in one of its fields. -/
structure Fields.Spelt (words : List (List Char)) (fields : Fields) : Prop where
  observe : ∀ observe ∈ fields.observe, observeField observe ∈ words
  actions : ∀ actions ∈ fields.actions, ∀ grant ∈ actions, ∃ ids,
    "actions=".toList ++ ids ∈ words ∧ grant.id.toList ∈ Separated.words (· = ',') ids
  label : ∀ name ∈ fields.label, "label=".toList ++ name.toList ∈ words

section Said

variable {path : String} {entry : AuthorizedClient} {entries result : List AuthorizedClient}

theorem mem_insert {grant other : ActionGrant} (h : other ∈ grant.insert actions) :
    other = grant ∨ other ∈ actions := by
  induction actions with
  | nil => simpa [ActionGrant.insert] using h
  | cons first rest ih =>
    rw [ActionGrant.insert] at h
    split_ifs at h
    · simpa using h
    · exact .inr h
    · rcases mem_cons.1 h with h | h
      · exact .inr (h ▸ mem_cons_self)
      · exact (ih h).imp_right (mem_cons_of_mem _)

/-- A grant that was put into a set was there before or is spelt by one of the identifiers. -/
theorem mem_granted {actions granted' : List ActionGrant} {ids : List (List Char)}
    (h : granted actions ids = .ok granted') {grant : ActionGrant} (hgrant : grant ∈ granted') :
    grant ∈ actions ∨ grant.id.toList ∈ ids := by
  induction ids generalizing actions with
  | nil =>
    cases h
    exact .inl hgrant
  | cons id ids ih =>
    rw [granted] at h
    cases hread : ActionGrant.fromStr (ofList id) with
    | error error =>
      rw [hread] at h
      cases h
    | ok first =>
      rw [hread] at h
      have hid : first.id.toList = id := by
        rw [ActionGrant.fromStr] at hread
        split_ifs at hread
        cases hread
        exact toList_ofList
      rcases ih h with hmem | hmem
      · rcases mem_insert hmem with rfl | hmem
        · exact .inr (hid ▸ mem_cons_self)
        · exact .inl hmem
      · exact .inr (mem_cons_of_mem _ hmem)

theorem eq_of_observed {value : List Char} {parsed : Bool} (h : observed value = .ok parsed) :
    value = (if parsed then "true" else "false").toList := by
  unfold observed at h
  split_ifs at h with htrue hfalse
  · cases h
    exact htrue
  · cases h
    exact hfalse

/-- **A field that is taken in** is spelt by the words it is one of. -/
theorem Fields.Spelt.take {words : List (List Char)} {fields fields' : Fields} {field : List Char}
    (hspelt : fields.Spelt words) (hfield : field ∈ words) (h : fields.take field = .ok fields') :
    fields'.Spelt words := by
  unfold Fields.take at h
  cases hsplit : splitOnce '=' field with
  | none =>
    rw [hsplit] at h
    cases h
  | some sides =>
    obtain ⟨name, value⟩ := sides
    obtain rfl := eq_of_splitOnce hsplit
    rw [hsplit] at h
    dsimp only at h
    by_cases hobserve : name = "observe".toList
    · rw [if_pos hobserve] at h
      cases hparsed : observed value with
      | error detail =>
        rw [hparsed] at h
        cases h
      | ok parsed =>
        rw [hparsed] at h
        dsimp only at h
        split_ifs at h
        cases h
        refine ⟨fun observe hsome => ?_, hspelt.actions, hspelt.label⟩
        obtain rfl := Option.some.inj hsome
        rw [hobserve, eq_of_observed hparsed] at hfield
        exact hfield
    rw [if_neg hobserve] at h
    by_cases hactions : name = "actions".toList
    · rw [if_pos hactions] at h
      cases hgranted : granted [] (Separated.words (· = ',') value) with
      | error detail =>
        rw [hgranted] at h
        cases h
      | ok actions =>
        rw [hgranted] at h
        dsimp only at h
        split_ifs at h
        cases h
        refine ⟨hspelt.observe, fun found hsome grant hgrant => ?_, hspelt.label⟩
        obtain rfl := Option.some.inj hsome
        rw [hactions] at hfield
        exact ⟨value, hfield, (mem_granted hgranted hgrant).resolve_left not_mem_nil⟩
    rw [if_neg hactions] at h
    split_ifs at h with hlabel
    cases h
    refine ⟨hspelt.observe, hspelt.actions, fun found hsome => ?_⟩
    obtain rfl := Option.some.inj hsome
    rw [hlabel] at hfield
    have hvalue : (String.ofList value).toList = value := String.toList_ofList
    rw [hvalue]
    exact hfield

theorem spelt_empty (words : List (List Char)) : Fields.Spelt words ⟨none, none, none⟩ where
  observe _ h := absurd h (Option.not_mem_none _)
  actions _ h := absurd h (Option.not_mem_none _)
  label _ h := absurd h (Option.not_mem_none _)

theorem Fields.Spelt.takeAll {words others : List (List Char)} {fields fields' : Fields}
    (hspelt : fields.Spelt words) (hothers : others ⊆ words)
    (h : fields.takeAll others = .ok fields') : fields'.Spelt words := by
  induction others generalizing fields with
  | nil =>
    cases h
    exact hspelt
  | cons field others ih =>
    rw [cons_subset] at hothers
    rw [Fields.takeAll] at h
    cases htaken : fields.take field with
    | error detail =>
      rw [htaken] at h
      cases h
    | ok taken =>
      rw [htaken] at h
      exact ih (hspelt.take hothers.1 htaken) hothers.2 h

/-- **An entry that was read** is what its line says. -/
theorem says_of_parseEntry {line : List Char} (h : parseEntry line = .ok entry) :
    Says line entry := by
  unfold parseEntry at h
  cases hwords : words isWhitespace line with
  | nil =>
    rw [hwords] at h
    cases h
  | cons first others =>
    rw [hwords] at h
    dsimp only at h
    cases hfirst : Fingerprint.fromStr first with
    | error error =>
      rw [hfirst] at h
      cases h
    | ok fingerprint =>
      rw [hfirst] at h
      dsimp only at h
      cases hfields : Fields.takeAll ⟨none, none, none⟩ others with
      | error detail =>
        rw [hfields] at h
        cases h
      | ok fields =>
        rw [hfields] at h
        have hspelt : fields.Spelt (Separated.words isWhitespace line) :=
          Fields.Spelt.takeAll (spelt_empty _) (by simp [hwords]) hfields
        obtain ⟨observe, actions, label⟩ := fields
        cases observe with
        | none => cases h
        | some observe =>
          cases h
          refine ⟨⟨first, by simp [hwords], hfirst⟩, hspelt.observe _ rfl, hspelt.label, ?_⟩
          intro grant hgrant
          cases actions with
          | none => cases hgrant
          | some actions => exact hspelt.actions actions rfl grant hgrant

/-- What lines say after the entries above them. -/
theorem says_of_parseLines {lines : List (List Char)} {index : Nat}
    (hnodup : (entries.map (·.fingerprint)).Nodup)
    (h : parseLines path entries index lines = .ok result) :
    (result.map (·.fingerprint)).Nodup ∧ ∃ said, result = entries ++ said ∧
      Forall₂ Says ((lines.map (trimmed isWhitespace)).filter fun line =>
        !(line.isEmpty || line.head? == some '#')) said := by
  induction lines generalizing entries index with
  | nil =>
    cases h
    exact ⟨hnodup, [], by simp⟩
  | cons line lines ih =>
    unfold parseLines at h
    dsimp only at h
    by_cases hskip : trimmed isWhitespace line = [] ∨ (trimmed isWhitespace line).head? = some '#'
    · rw [if_pos hskip] at h
      rw [map_cons, filter_cons_of_neg (by simpa [or_iff_not_imp_left] using hskip)]
      exact ih hnodup h
    · rw [if_neg hskip] at h
      rw [map_cons, filter_cons_of_pos (by simpa using hskip)]
      cases hentry : parseEntry (trimmed isWhitespace line) with
      | error detail =>
        rw [hentry] at h
        cases h
      | ok entry =>
        rw [hentry] at h
        dsimp only at h
        split_ifs at h with hlisted
        have hnew : ((entries ++ [entry]).map (·.fingerprint)).Nodup := by
          rw [map_append, nodup_append]
          refine ⟨hnodup, by simp, ?_⟩
          rintro _ hexisting _ hmem rfl
          obtain ⟨existing, hmem', heq⟩ := mem_map.1 hexisting
          refine hlisted (any_eq_true.2 ⟨existing, hmem', ?_⟩)
          simpa [heq] using hmem
        obtain ⟨hresult, said, rfl, hsaid⟩ := ih hnew h
        exact ⟨hresult, entry :: said, by simp, .cons (says_of_parseEntry hentry) hsaid⟩

/-- **What was read of a file** stands in it: each line that is no comment and not blank is one
entry, and no fingerprint is listed twice. -/
theorem says_of_parse {text : String} (h : parse text path = .ok entries) :
    Forall₂ Says (contentLines text) entries ∧ (entries.map (·.fingerprint)).Nodup := by
  obtain ⟨hnodup, said, rfl, hsaid⟩ := @says_of_parseLines _ [] _ _ _ nodup_nil h
  exact ⟨hsaid, hnodup⟩

theorem solid_of_parse {text : String} (h : parse text path = .ok entries) :
    ∀ entry ∈ entries, Solid entry.label := by
  have hsolid : Forall₂ (fun _ entry => Solid entry.label) (contentLines text) entries :=
    (says_of_parse h).1.imp fun line entry hsaid name hname c hc =>
      (forall_of_mem_words (hsaid.label name hname)).2 c (mem_append_right _ hc)
  clear h
  generalize contentLines text = lines at hsolid
  induction hsolid with
  | nil => simp
  | cons hfirst _ ih => exact forall_mem_cons.2 ⟨hfirst, ih⟩

end Said

end AuthorizedClients

/-! ### Texts of fingerprints -/

/-- A hexadecimal digit, of either case. -/
def IsHexDigit (c : Char) : Prop :=
  ('0' ≤ c ∧ c ≤ '9') ∨ ('a' ≤ c ∧ c ≤ 'f') ∨ ('A' ≤ c ∧ c ≤ 'F')

/-- The marker and 64 hexadecimal digits. -/
def IsFingerprintText (text : List Char) : Prop :=
  ∃ digits, text = fingerprintMarker ++ digits ∧ digits.length = 64 ∧ ∀ c ∈ digits, IsHexDigit c

/-- The characters of pairs. -/
def unpaired (pairs : List (Char × Char)) : List Char :=
  pairs.flatMap fun pair => [pair.1, pair.2]

/-- A pair that is read as a byte. -/
def IsBytePair (pair : Char × Char) : Prop :=
  (IsHexDigit pair.1 ∨ pair.1 = '+') ∧ IsHexDigit pair.2

/-- The marker and 32 pairs that are read as bytes, with a plus sign in one of them. -/
def PlusPaired (text : List Char) : Prop :=
  ∃ pairs, text = fingerprintMarker ++ unpaired pairs ∧ pairs.length = 32 ∧
    (∀ pair ∈ pairs, IsBytePair pair) ∧ ∃ pair ∈ pairs, pair.1 = '+'

section FingerprintText

variable {text digits : List Char} {c high low : Char} {pairs : List (Char × Char)}

theorem isSome_toDigit_iff : (toDigit c).isSome ↔ IsHexDigit c := by
  rw [toDigit, IsHexDigit]
  split_ifs <;> simp_all

theorem isSome_fromStrRadix_iff : (fromStrRadix high low).isSome ↔ IsBytePair (high, low) := by
  have hplus : ¬IsHexDigit '+' := by
    rw [← isSome_toDigit_iff]
    decide
  rw [fromStrRadix, IsBytePair, ← isSome_toDigit_iff, ← isSome_toDigit_iff]
  split_ifs with hhigh
  · simp [hhigh]
  · cases toDigit high <;> simp [hhigh]

theorem utf8Size_of_isHexDigit (h : IsHexDigit c) : c.utf8Size = 1 := by
  have hle : c.val ≤ 0x7f := by
    rcases h with ⟨-, h⟩ | ⟨-, h⟩ | ⟨-, h⟩ <;> exact UInt32.le_trans h (by decide)
  exact if_pos hle

theorem sum_utf8Size_unpaired (h : ∀ pair ∈ pairs, IsBytePair pair) :
    ((unpaired pairs).map Char.utf8Size).sum = 2 * pairs.length := by
  induction pairs with
  | nil => rfl
  | cons pair pairs ih =>
    obtain ⟨⟨hhigh, hlow⟩, hrest⟩ := forall_mem_cons.1 h
    have hfirst : pair.1.utf8Size = 1 := by
      rcases hhigh with hhigh | hhigh
      · exact utf8Size_of_isHexDigit hhigh
      · rw [hhigh]
        decide
    have hpairs := ih hrest
    simp only [unpaired, flatMap_cons, map_append, map_cons, map_nil,
      sum_append, sum_cons, sum_nil, hfirst, utf8Size_of_isHexDigit hlow,
      length_cons] at hpairs ⊢
    omega

theorem fromPairs_unpaired (h : ∀ pair ∈ pairs, IsBytePair pair) :
    ∃ bytes, fromPairs (unpaired pairs) = some bytes ∧ bytes.length = pairs.length := by
  induction pairs with
  | nil => exact ⟨[], rfl, rfl⟩
  | cons pair pairs ih =>
    obtain ⟨hpair, hrest⟩ := forall_mem_cons.1 h
    obtain ⟨bytes, hbytes, hlength⟩ := ih hrest
    obtain ⟨byte, hbyte⟩ := Option.isSome_iff_exists.1 (isSome_fromStrRadix_iff.2 hpair)
    refine ⟨byte :: bytes, ?_, by simp [hlength]⟩
    simp only [unpaired, flatMap_cons, cons_append, nil_append, fromPairs] at hbytes ⊢
    simp [hbyte, hbytes]

/-- What is read as bytes is pairs. -/
theorem exists_unpaired_of_fromPairs {bytes : List UInt8} (h : fromPairs digits = some bytes) :
    ∃ pairs, digits = unpaired pairs ∧ pairs.length = bytes.length ∧
      ∀ pair ∈ pairs, IsBytePair pair := by
  induction bytes generalizing digits with
  | nil =>
    rcases digits with _ | ⟨high, _ | ⟨low, rest⟩⟩
    · exact ⟨[], rfl, rfl, nofun⟩
    · cases h
    · simp [fromPairs, Option.bind_eq_some_iff] at h
  | cons byte bytes ih =>
    rcases digits with _ | ⟨high, _ | ⟨low, rest⟩⟩
    · cases h
    · cases h
    · simp only [fromPairs, Option.bind_eq_some_iff, Option.map_eq_some_iff, cons.injEq] at h
      obtain ⟨_, hbyte, _, hrest, rfl, rfl⟩ := h
      obtain ⟨pairs, rfl, hlength, hpairs⟩ := ih hrest
      have hpair : IsBytePair (high, low) := isSome_fromStrRadix_iff.1 (by simp [hbyte])
      exact ⟨(high, low) :: pairs, rfl, by simp [hlength], forall_mem_cons.2 ⟨hpair, hpairs⟩⟩

theorem isSome_ofDigits_iff : (Fingerprint.ofDigits digits).isSome ↔
    ∃ pairs, digits = unpaired pairs ∧ pairs.length = 32 ∧ ∀ pair ∈ pairs, IsBytePair pair := by
  constructor
  · intro h
    rw [Fingerprint.ofDigits] at h
    by_cases hsize : (digits.map Char.utf8Size).sum = 64
    swap
    · rw [if_neg hsize] at h
      cases h
    rw [if_pos hsize] at h
    cases hbytes : fromPairs digits with
    | none => simp [hbytes] at h
    | some bytes =>
      obtain ⟨pairs, hdigits, hlength, hpairs⟩ := exists_unpaired_of_fromPairs hbytes
      refine ⟨pairs, hdigits, ?_, hpairs⟩
      rw [hbytes, Option.bind_some] at h
      by_cases hcount : bytes.toArray.size = 32
      · rw [hlength, ← hcount, size_toArray]
      · rw [dif_neg hcount] at h
        cases h
  · rintro ⟨pairs, rfl, hlength, hpairs⟩
    obtain ⟨bytes, hbytes, hbyteslength⟩ := fromPairs_unpaired hpairs
    rw [Fingerprint.ofDigits, if_pos (by rw [sum_utf8Size_unpaired hpairs, hlength]), hbytes,
      Option.bind_some, dif_pos (by rw [size_toArray, hbyteslength, hlength])]
    rfl

theorem exists_unpaired {count : Nat} (h : digits.length = 2 * count) :
    ∃ pairs, digits = unpaired pairs ∧ pairs.length = count := by
  induction count generalizing digits with
  | zero => exact ⟨[], length_eq_zero_iff.1 h, rfl⟩
  | succ count ih =>
    rcases digits with _ | ⟨high, _ | ⟨low, rest⟩⟩
    · simp at h
    · simp only [length_cons, length_nil] at h
      omega
    · obtain ⟨pairs, rfl, hlength⟩ := @ih rest (by simp only [length_cons] at h; omega)
      exact ⟨(high, low) :: pairs, rfl, by rw [length_cons, hlength]⟩

theorem mem_unpaired : c ∈ unpaired pairs ↔ ∃ pair ∈ pairs, c = pair.1 ∨ c = pair.2 := by
  simp [unpaired]

/-- **What a fingerprint is read from**: the marker and 64 digits, or pairs with a plus sign. -/
theorem fromStr_isOk_iff : (∃ fingerprint, Fingerprint.fromStr text = .ok fingerprint) ↔
    IsFingerprintText text ∨ PlusPaired text := by
  have hread : (∃ fingerprint, Fingerprint.fromStr text = .ok fingerprint) ↔
      ∃ pairs, text = fingerprintMarker ++ unpaired pairs ∧ pairs.length = 32 ∧
        ∀ pair ∈ pairs, IsBytePair pair := by
    have hsome : (∃ fingerprint, Fingerprint.fromStr text = .ok fingerprint) ↔
        ((text.dropPrefix? fingerprintMarker).bind Fingerprint.ofDigits).isSome := by
      rw [Fingerprint.fromStr]
      cases (text.dropPrefix? fingerprintMarker).bind Fingerprint.ofDigits <;> simp
    rw [hsome]
    constructor
    · intro h
      cases hdrop : text.dropPrefix? fingerprintMarker with
      | none => simp [hdrop] at h
      | some digits =>
        rw [hdrop, Option.bind_some, isSome_ofDigits_iff] at h
        obtain ⟨pairs, rfl, hpairs⟩ := h
        obtain ⟨marker, rfl, hmarker⟩ := dropPrefix?_eq_some_iff.1 hdrop
        exact ⟨pairs, by rw [eq_of_beq hmarker], hpairs⟩
    · rintro ⟨pairs, rfl, hpairs⟩
      rw [dropPrefix?_append_of_beq _ BEq.rfl, Option.bind_some, isSome_ofDigits_iff]
      exact ⟨pairs, rfl, hpairs⟩
  rw [hread]
  constructor
  · rintro ⟨pairs, rfl, hlength, hpairs⟩
    by_cases hplus : ∃ pair ∈ pairs, pair.1 = '+'
    · exact .inr ⟨pairs, rfl, hlength, hpairs, hplus⟩
    · refine .inl ⟨unpaired pairs, rfl, ?_, fun c hc => ?_⟩
      · simp [unpaired, hlength]
      · obtain ⟨pair, hpair, rfl | rfl⟩ := mem_unpaired.1 hc
        · exact (hpairs pair hpair).1.resolve_right fun heq => hplus ⟨pair, hpair, heq⟩
        · exact (hpairs pair hpair).2
  · rintro (⟨digits, rfl, hlength, hdigits⟩ | ⟨pairs, rfl, hlength, hpairs, -⟩)
    · obtain ⟨pairs, rfl, hpairs⟩ := @exists_unpaired digits 32 hlength
      refine ⟨pairs, rfl, hpairs, fun pair hpair => ⟨.inl (hdigits _ ?_), hdigits _ ?_⟩⟩
      · exact mem_unpaired.2 ⟨pair, hpair, .inl rfl⟩
      · exact mem_unpaired.2 ⟨pair, hpair, .inr rfl⟩
    · exact ⟨pairs, rfl, hlength, hpairs⟩

theorem PlusPaired.not_isFingerprintText (h : PlusPaired text) : ¬IsFingerprintText text := by
  obtain ⟨pairs, rfl, -, -, pair, hpair, hplus⟩ := h
  rintro ⟨digits, hdigits, -, hhex⟩
  have hmem : '+' ∈ digits := by
    rw [← List.append_cancel_left hdigits, ← hplus]
    exact mem_unpaired.2 ⟨pair, hpair, .inl rfl⟩
  have hnot : ¬IsHexDigit '+' := by
    rw [← isSome_toDigit_iff]
    decide
  exact hnot (hhex _ hmem)

end FingerprintText

/-! ### What the file means -/

section Meaning

open AuthorizedClients

/-- **Which entries are read back**: those whose names have no white space in them. -/
theorem parse_render_iff {entries : List AuthorizedClient}
    (hordered : ∀ entry ∈ entries, entry.Ordered)
    (hnodup : (entries.map (·.fingerprint)).Nodup) (path : String) :
    AuthorizedClients.parse (AuthorizedClients.render entries) path = .ok entries ↔
      ∀ entry ∈ entries, Solid entry.label := by
  refine ⟨solid_of_parse, fun hsolid => ?_⟩
  exact AuthorizedClients.parse_render (fun entry hentry =>
    ⟨hordered entry hentry, hsolid entry hentry⟩) hnodup path

/-- **What the file of authorized clients means.** Entries are read back exactly when no name has
white space in it; what is read stands in the file, line by line; and the fingerprints that are read
are the marker and 64 hexadecimal digits, but for texts with a plus sign in front of a digit. -/
theorem clientFile_faithful (path : String) (entries : List AuthorizedClient) :
    ((∀ entry ∈ entries, entry.Ordered) → (entries.map (·.fingerprint)).Nodup →
      (AuthorizedClients.parse (AuthorizedClients.render entries) path = .ok entries ↔
        ∀ entry ∈ entries, Solid entry.label)) ∧
      (∀ text : String, AuthorizedClients.parse text path = .ok entries →
        Forall₂ Says (contentLines text) entries ∧ (entries.map (·.fingerprint)).Nodup) ∧
      ∀ text : List Char,
        ((∃ fingerprint, Fingerprint.fromStr text = .ok fingerprint) ↔ IsFingerprintText text) ↔
          ¬PlusPaired text := by
  refine ⟨fun hordered hnodup => parse_render_iff hordered hnodup path,
    fun text h => says_of_parse h, fun text => ?_⟩
  rw [fromStr_isOk_iff]
  constructor
  · intro h hplus
    exact hplus.not_isFingerprintText (h.1 (.inr hplus))
  · intro hplus
    exact or_iff_left hplus

theorem isCapabilityId_signal : isCapabilityId "process.signal" = true := by
  decide +kernel

theorem isCapabilityId_restart : isCapabilityId "service.restart" = true := by
  decide +kernel

/-- A client that may signal and restart, and one that may only observe. -/
def operators : List AuthorizedClient :=
  [{ fingerprint := ⟨Vector.replicate 32 0⟩
     label := none
     observe := false
     actions := [⟨"process.signal", isCapabilityId_signal⟩,
       ⟨"service.restart", isCapabilityId_restart⟩] },
    { fingerprint := ⟨Vector.replicate 32 1⟩, label := some "ops", observe := true, actions := [] }]

theorem clientFile_faithful_operators :
    AuthorizedClients.parse (AuthorizedClients.render operators) "clients" = .ok operators ∧
      Forall₂ Says (contentLines (AuthorizedClients.render operators)) operators := by
  have hordered : ∀ entry ∈ operators, entry.Ordered := by
    refine forall_mem_cons.2 ⟨?_, by simp [AuthorizedClient.Ordered]⟩
    exact pairwise_pair.2 (by decide +kernel)
  have hsolid : ∀ entry ∈ operators, Solid entry.label := by
    refine forall_mem_cons.2 ⟨nofun, forall_mem_cons.2 ⟨fun name hname => ?_, nofun⟩⟩
    cases hname
    exact forall_isWhitespace_eq_false (by decide)
  have hfile := clientFile_faithful "clients" operators
  have hread := (hfile.1 hordered (by decide)).2 hsolid
  exact ⟨hread, (hfile.2.1 _ hread).1⟩

/-- A client that may only observe, under a name that spells a grant. -/
def spoofing : AuthorizedClient where
  fingerprint := ⟨Vector.replicate 32 0⟩
  label := some "ops actions=process.signal"
  observe := true
  actions := []

/-- The same client, with the grant its name spells. -/
def spoofed : AuthorizedClient where
  fingerprint := ⟨Vector.replicate 32 0⟩
  label := some "ops"
  observe := true
  actions := [⟨"process.signal", isCapabilityId_signal⟩]

/-- A name with white space in it is read back as another one, and as a grant; and a fingerprint is
read from a text with plus signs for digits. -/
theorem not_clientFile_faithful :
    (¬∀ (path : String) (entries : List AuthorizedClient), (∀ entry ∈ entries, entry.Ordered) →
      (entries.map (·.fingerprint)).Nodup →
        AuthorizedClients.parse (AuthorizedClients.render entries) path = .ok entries) ∧
      parseEntry (line spoofing).toList = .ok spoofed ∧
      ¬∀ text : List Char,
        (∃ fingerprint, Fingerprint.fromStr text = .ok fingerprint) ↔ IsFingerprintText text := by
  refine ⟨fun h => ?_, ?_, fun h => ?_⟩
  · have hsolid := solid_of_parse (h "" [spoofing] (by simp [AuthorizedClient.Ordered, spoofing])
      (by simp)) spoofing mem_cons_self _ rfl ' ' (by decide +kernel)
    exact absurd hsolid (by decide)
  · have hline : (line spoofing).toList = spoofing.fingerprint.text.toList ++
        headed ' ' ["observe=true".toList, "label=ops".toList,
          "actions=process.signal".toList] := by
      rw [AuthorizedClients.toList_line]
      rfl
    have hwords : words isWhitespace (line spoofing).toList =
        spoofing.fingerprint.text.toList :: ["observe=true".toList, "label=ops".toList,
          "actions=process.signal".toList] := by
      rw [hline]
      refine words_append_headed (by decide) ?_
      refine forall_mem_cons.2 ⟨⟨text_ne_nil _, isWhitespace_of_mem_text _⟩, ?_⟩
      simp only [forall_mem_cons, not_mem_nil, IsEmpty.forall_iff, implies_true, and_true]
      exact ⟨⟨by decide, forall_isWhitespace_eq_false (by decide)⟩,
        ⟨by decide, forall_isWhitespace_eq_false (by decide)⟩,
        ⟨by decide, forall_isWhitespace_eq_false (by decide)⟩⟩
    rw [parseEntry, hwords]
    simp only [Fingerprint.fromStr_text]
    rfl
  · have hplus : PlusPaired (fingerprintMarker ++ unpaired (replicate 32 ('+', '0'))) := by
      refine ⟨_, rfl, length_replicate, fun pair hpair => ?_, ('+', '0'), by simp, rfl⟩
      rw [eq_of_mem_replicate hpair, ← isSome_fromStrRadix_iff]
      decide
    exact hplus.not_isFingerprintText ((h _).1 (fromStr_isOk_iff.2 (.inr hplus)))

end Meaning

end OnoSendai.Link
