import Mathlib
import OnoSendai.Temporal.Token

/-!
# The identity of an event

An event is identified by a digest of what was observed: named parts, of which the last is a digest
of the body. A ledger drops an event whose identity it holds already, so the text that is digested
is to be the same for two reports of one observation, and for no others. It gives a scope by its
kind and its identifier alone, without the scopes it is nested in, and a value by a text in which
nothing is escaped.
-/

namespace OnoSendai.Temporal

open Separated List SpatialRef Vocabulary Function
open String hiding append_right_inj map_map toList toList_join
open Option hiding all_eq_true map_map mem_map toList toList_join

/-! ### Digests -/

/-- Separates one named part from the next. -/
def partMark : Char :=
  Char.ofNat 0x1f

/-- Separates the name of a part from its value. -/
def nameMark : Char :=
  Char.ofNat 0x1e

/-- Separates what the value of one part is made of. -/
def fieldMark : Char :=
  Char.ofNat 0x01

/-- Stands for a part that is absent. -/
def absentMark : Char :=
  Char.ofNat 0x00

/-- The text a digest of named parts is taken of. -/
def digestText (kind : String) (parts : List (String × String)) : String :=
  kind ++ String.join (parts.map fun part =>
    String.singleton partMark ++ part.1 ++ String.singleton nameMark ++ part.2)

/-- The value of a part that may be absent, which is not the same as an empty one. -/
def optionalText (value : Option String) : String :=
  value.getD (singleton absentMark)

/-- The first bytes of the hash of a text, in hexadecimal digits. -/
def finish (sha256 : Sha256) (text : String) (bytes : Nat) : String :=
  hexText ((sha256 text).toList.take bytes)

/-! ### Seeds -/

/-- An event before it has an identity. -/
structure EventSeed where
  kind : EventKind
  subtype : Option String
  scope : SpatialScope
  subject : Option SpatialRef
  related : List SpatialRef
  times : EventTimes
  before : Option Value
  after : Option Value
  changedFields : List FieldChange
  evidence : List EvidenceId
  causalParents : List CausalLinkId
  payload : Option Value
  provenance : Provenance

/-- A scope as text. -/
def SpatialScope.display (scope : SpatialScope) : String :=
  asStr scope.kind ++ ":" ++ scope.id

/-- What a subject gives an identity. -/
def subjectToken : Option SpatialRef → String
  | none => singleton absentMark
  | some (.resolved id _ _) => "resolved" ++ singleton fieldMark ++ id.text
  | some (.unresolved source described) =>
    "unresolved" ++ singleton fieldMark ++ source.text ++ singleton fieldMark ++
      described

section Identity

variable (sha256 : Sha256) (printers : TokenPrinters)

/-- What a field change gives an identity. -/
def changeText (change : FieldChange) : String :=
  change.before.elim "" (token printers) ++ singleton fieldMark ++
    change.after.elim "" (token printers) ++ singleton fieldMark ++
      asStr change.certainty

/-- What a side of an event gives an identity. -/
def sideText (side : Option Value) : String :=
  optionalText (side.map (token printers))

/-- The parts of the body of an event. -/
def bodyParts (seed : EventSeed) : List (String × String) :=
  ("subtype", optionalText seed.subtype) :: ("scope", seed.scope.display) ::
    ((seed.related.zipIdx.map fun related =>
        ("related." ++ toString related.2, subjectToken (some related.1))) ++
      ("before", sideText printers seed.before) :: ("after", sideText printers seed.after) ::
        ((seed.changedFields.map fun change => ("changed." ++ change.field, changeText printers change)) ++
          [("payload", sideText printers seed.payload)]))

/-- The text of which the digest of the body is taken. -/
def bodyText (seed : EventSeed) : String :=
  digestText "ono.temporal-event.body/1" (bodyParts printers seed)

/-- The parts of an event. -/
def eventParts (seed : EventSeed) : List (String × String) :=
  [("source", seed.provenance.provider),
    ("kind", asStr seed.kind),
    ("subject", subjectToken seed.subject),
    ("source_time", optionalText (seed.times.sourceTime.map toString)),
    ("observed_at", toString seed.times.observedAt),
    ("source_sequence", optionalText (seed.times.sourceSequence.map toString)),
    ("host", seed.times.domain.host),
    ("boot_id", optionalText seed.times.domain.bootId),
    ("body", finish sha256 (bodyText printers seed) 32)]

/-- The text of which the identity of an event is taken. -/
def eventText (seed : EventSeed) : String :=
  digestText "ono.temporal-event/1" (eventParts sha256 printers seed)

end Identity

/-! ### Reports of one observation -/

/-- What a subject is identified by: its canonical identity, or the source that named it and how. -/
def SpatialRef.identity : SpatialRef → SpatialId ⊕ EvidenceSource × String
  | resolved id _ _ => .inl id
  | unresolved source described => .inr (source, described)

/-- Whether two values are equal but for who observed the records in them. -/
def EqualUnobserved (powi : ℕ → UInt64) (a b : Value) : Prop :=
  a.unobserved.eq powi b.unobserved = true

variable {one two : Option Value}

namespace EventSeed

/-- Whether a relation holds between the values that stand in one place of two seeds: before and
after, on both sides of every field change, and in the payload. -/
structure Sidewise (related : Value → Value → Prop) (a b : EventSeed) : Prop where
  before : Rel related a.before b.before
  after : Rel related a.after b.after
  changes : Forall₂ (fun one two => Rel related one.before two.before ∧
    Rel related one.after two.after) a.changedFields b.changedFields
  payload : Rel related a.payload b.payload

/-- Reports that agree on all but what their scopes are nested in and what values they hold. -/
structure AgreesBut (a b : EventSeed) : Prop where
  source : a.provenance.provider = b.provenance.provider
  kind : a.kind = b.kind
  subject : a.subject.map identity = b.subject.map identity
  sourceTime : a.times.sourceTime = b.times.sourceTime
  observedAt : a.times.observedAt = b.times.observedAt
  sourceSequence : a.times.sourceSequence = b.times.sourceSequence
  domain : a.times.domain = b.times.domain
  subtype : a.subtype = b.subtype
  scopeKind : a.scope.kind = b.scope.kind
  scopeId : a.scope.id = b.scope.id
  related : a.related.map identity = b.related.map identity
  changes : Forall₂ (fun one two => one.field = two.field ∧ one.certainty = two.certainty)
    a.changedFields b.changedFields

/-- Two reports of one observation: they agree on everything that makes it this observation. -/
structure Agrees (powi : ℕ → UInt64) (a b : EventSeed) : Prop where
  source : a.provenance.provider = b.provenance.provider
  kind : a.kind = b.kind
  subject : a.subject.map identity = b.subject.map identity
  sourceTime : a.times.sourceTime = b.times.sourceTime
  observedAt : a.times.observedAt = b.times.observedAt
  sourceSequence : a.times.sourceSequence = b.times.sourceSequence
  domain : a.times.domain = b.times.domain
  subtype : a.subtype = b.subtype
  scope : a.scope = b.scope
  related : a.related.map identity = b.related.map identity
  before : Rel (EqualUnobserved powi) a.before b.before
  after : Rel (EqualUnobserved powi) a.after b.after
  changedFields : Forall₂ (fun one two => one.field = two.field ∧
    Rel (EqualUnobserved powi) one.before two.before ∧
    Rel (EqualUnobserved powi) one.after two.after ∧ one.certainty = two.certainty)
    a.changedFields b.changedFields
  payload : Rel (EqualUnobserved powi) a.payload b.payload

/-- Values that stand in one place of two seeds. -/
def Facing (a b : EventSeed) (one two : Value) : Prop :=
  (a.before = some one ∧ b.before = some two) ∨ (a.after = some one ∧ b.after = some two) ∨
    (a.payload = some one ∧ b.payload = some two) ∨
    ∃ changes ∈ a.changedFields.zip b.changedFields,
      (changes.1.before = some one ∧ changes.2.before = some two) ∨
        (changes.1.after = some one ∧ changes.2.after = some two)

theorem agrees_iff {powi : ℕ → UInt64} {a b : EventSeed} : a.Agrees powi b ↔
    a.AgreesBut b ∧ a.scope = b.scope ∧ a.Sidewise (EqualUnobserved powi) b := by
  constructor
  · intro h
    refine ⟨⟨h.source, h.kind, h.subject, h.sourceTime, h.observedAt, h.sourceSequence, h.domain,
      h.subtype, by rw [h.scope], by rw [h.scope], h.related, ?_⟩, h.scope,
      ⟨h.before, h.after, ?_, h.payload⟩⟩
    · exact h.changedFields.imp fun _ _ hchange => ⟨hchange.1, hchange.2.2.2⟩
    · exact h.changedFields.imp fun _ _ hchange => ⟨hchange.2.1, hchange.2.2.1⟩
  · rintro ⟨h, hscope, hsides⟩
    refine ⟨h.source, h.kind, h.subject, h.sourceTime, h.observedAt, h.sourceSequence, h.domain,
      h.subtype, hscope, h.related, hsides.before, hsides.after, ?_, hsides.payload⟩
    have hchanges := forall₂_iff_zip.1 h.changes
    have hvalues := forall₂_iff_zip.1 hsides.changes
    refine forall₂_iff_zip.2 ⟨hchanges.1, fun hmem => ?_⟩
    exact ⟨(hchanges.2 hmem).1, (hvalues.2 hmem).1, (hvalues.2 hmem).2, (hchanges.2 hmem).2⟩

variable {r s : Value → Value → Prop}

theorem rel_congr (h : ∀ v w, one = some v → two = some w → (r v w ↔ s v w)) :
    Rel r one two ↔ Rel s one two := by
  rcases one with _ | v <;> rcases two with _ | w <;> simp_all

/-- Relations that are the same between values in one place are the same between seeds. -/
theorem sidewise_congr {a b : EventSeed} (h : ∀ v w, a.Facing b v w → (r v w ↔ s v w)) :
    a.Sidewise r b ↔ a.Sidewise s b := by
  have hbefore : Rel r a.before b.before ↔ Rel s a.before b.before :=
    rel_congr fun v w hv hw => h v w (.inl ⟨hv, hw⟩)
  have hafter : Rel r a.after b.after ↔ Rel s a.after b.after :=
    rel_congr fun v w hv hw => h v w (.inr (.inl ⟨hv, hw⟩))
  have hpayload : Rel r a.payload b.payload ↔ Rel s a.payload b.payload :=
    rel_congr fun v w hv hw => h v w (.inr (.inr (.inl ⟨hv, hw⟩)))
  have hchange : ∀ one two, (one, two) ∈ a.changedFields.zip b.changedFields →
      ((Rel r one.before two.before ∧ Rel r one.after two.after) ↔
        (Rel s one.before two.before ∧ Rel s one.after two.after)) := by
    intro one two hmem
    refine and_congr (rel_congr fun v w hv hw => ?_) (rel_congr fun v w hv hw => ?_)
    · exact h v w (.inr (.inr (.inr ⟨(one, two), hmem, .inl ⟨hv, hw⟩⟩)))
    · exact h v w (.inr (.inr (.inr ⟨(one, two), hmem, .inr ⟨hv, hw⟩⟩)))
  constructor
  · rintro ⟨h1, h2, h3, h4⟩
    rw [forall₂_iff_zip] at h3
    exact ⟨hbefore.1 h1, hafter.1 h2, forall₂_iff_zip.2
      ⟨h3.1, fun hmem => (hchange _ _ hmem).1 (h3.2 hmem)⟩, hpayload.1 h4⟩
  · rintro ⟨h1, h2, h3, h4⟩
    rw [forall₂_iff_zip] at h3
    exact ⟨hbefore.2 h1, hafter.2 h2, forall₂_iff_zip.2
      ⟨h3.1, fun hmem => (hchange _ _ hmem).2 (h3.2 hmem)⟩, hpayload.2 h4⟩

end EventSeed

/-! ### Texts without marks -/

/-- Whether a text has none of the characters that structure what is digested. -/
def Unmarked (text : String) : Prop :=
  ∀ mark ∈ [absentMark, fieldMark, nameMark, partMark], mark ∉ text.toList

instance (text : String) : Decidable (Unmarked text) :=
  decidableBAll _ _

/-- Whether a text can be the name or the value of a part. -/
def Clean (text : String) : Prop :=
  partMark ∉ text.toList ∧ nameMark ∉ text.toList

instance (text : String) : Decidable (Clean text) :=
  inferInstanceAs (Decidable (partMark ∉ text.toList ∧ nameMark ∉ text.toList))

theorem Unmarked.clean {text : String} (h : Unmarked text) : Clean text :=
  ⟨h _ (by decide), h _ (by decide)⟩

theorem Clean.append {one two : String} (h : Clean one) (h' : Clean two) : Clean (one ++ two) := by
  simp only [Clean, toList_append, mem_append, not_or] at *
  exact ⟨⟨h.1, h'.1⟩, h.2, h'.2⟩

theorem clean_fieldMark : Clean (singleton fieldMark) := by decide

theorem clean_absentMark : Clean (singleton absentMark) := by decide

theorem unmarked_of_graphic {text : String} (h : ∀ c ∈ text.toList, 0x20 ≤ c.toNat) :
    Unmarked text := by
  intro mark hmark hmem
  have hle := h mark hmem
  simp only [mem_cons, not_mem_nil, or_false] at hmark
  rcases hmark with rfl | rfl | rfl | rfl <;> revert hle <;> decide

theorem graphic_of_isDigit {c : Char} (h : c.isDigit = true) : 0x20 ≤ c.toNat := by
  simp only [Char.isDigit, Bool.and_eq_true, decide_eq_true_eq] at h
  have hle : '0'.toNat ≤ c.toNat := h.1
  exact Nat.le_trans (by decide) hle

theorem unmarked_natText (n : Nat) : Unmarked (toString n) := by
  refine unmarked_of_graphic fun c hc => graphic_of_isDigit ?_
  rw [show toString n = Nat.repr n from rfl, Nat.toList_repr] at hc
  exact Nat.isDigit_of_mem_toDigits (by decide) (by decide) hc

theorem unmarked_intText (n : Int) : Unmarked (toString n) := by
  cases n with
  | ofNat n => exact unmarked_natText n
  | negSucc n =>
    refine unmarked_of_graphic fun c hc => ?_
    rw [show toString (Int.negSucc n) = "-" ++ toString (n + 1) from rfl, toList_append,
      mem_append] at hc
    rcases hc with hc | hc
    · have heq : c = '-' := by simpa using hc
      rw [heq]
      decide
    · rw [show toString (n + 1) = Nat.repr (n + 1) from rfl, Nat.toList_repr] at hc
      exact graphic_of_isDigit (Nat.isDigit_of_mem_toDigits (by decide) (by decide) hc)

theorem clean_asStr {α : Type} [Vocabulary α]
    (h : ∀ member ∈ (all : List α), Clean (asStr member)) (member : α) : Clean (asStr member) :=
  h member (mem_all member)

/-! ### The parts are read back -/

theorem toList_digestText (kind : String) (parts : List (String × String)) :
    (digestText kind parts).toList = kind.toList ++
      headed partMark (parts.map fun part => part.1.toList ++ nameMark :: part.2.toList) := by
  simp [digestText, headed, String.toList_join, flatMap_map]

/-- **The parts of a digest are read back** from the text it is taken of. -/
theorem digestText_inj {kind : String} {parts parts' : List (String × String)}
    (h : ∀ part ∈ parts, Clean part.1 ∧ Clean part.2)
    (h' : ∀ part ∈ parts', Clean part.1 ∧ Clean part.2) :
    digestText kind parts = digestText kind parts' ↔ parts = parts' := by
  refine ⟨fun heq => ?_, fun heq => by rw [heq]⟩
  rw [← String.toList_inj, toList_digestText, toList_digestText, append_right_inj] at heq
  have hfree : ∀ parts : List (String × String), (∀ part ∈ parts, Clean part.1 ∧ Clean part.2) →
      ∀ chars ∈ parts.map fun part => part.1.toList ++ nameMark :: part.2.toList,
        partMark ∉ chars := by
    intro parts hclean chars hchars
    obtain ⟨part, hpart, rfl⟩ := mem_map.1 hchars
    obtain ⟨hname, hvalue⟩ := hclean part hpart
    simp only [mem_append, mem_cons, not_or]
    exact ⟨hname.1, by decide, hvalue.1⟩
  rw [headed_inj (hfree parts h) (hfree parts' h')] at heq
  refine eq_of_map_eq (fun part hpart part' hpart' hchars => ?_) heq
  obtain ⟨hname, hvalue⟩ := (append_cons_inj (h part hpart).1.2 (h' part' hpart').1.2).1 hchars
  exact Prod.ext (toList_inj.1 hname) (toList_inj.1 hvalue)

theorem hexByte_injective : Injective hexByte := by
  have hdigit : ∀ a b, hexDigit a = hexDigit b → a = b := by decide
  intro one two h
  simp only [hexByte, cons.injEq, and_true] at h
  have hhigh := congrArg Fin.val (hdigit _ _ h.1)
  have hlow := congrArg Fin.val (hdigit _ _ h.2)
  simp only at hhigh hlow
  exact UInt8.toNat_inj.1 (by omega)

theorem hexText_inj {bytes bytes' : List UInt8} : hexText bytes = hexText bytes' ↔ bytes = bytes' := by
  refine ⟨fun h => ?_, fun h => by rw [h]⟩
  have hchars : bytes.flatMap hexByte = bytes'.flatMap hexByte := by
    simpa [hexText] using congrArg String.toList h
  exact map_injective_iff.2 hexByte_injective
    (flatMap_inj_of_length (fun _ => rfl) hchars)

theorem finish_inj {sha256 : Sha256} {text text' : String} :
    finish sha256 text 32 = finish sha256 text' 32 ↔ sha256 text = sha256 text' := by
  rw [finish, finish, hexText_inj, take_of_length_le (by simp),
    take_of_length_le (by simp), Vector.toList_inj]

theorem optionalText_inj {one two : Option String} (h : ∀ text ∈ one, Unmarked text)
    (h' : ∀ text ∈ two, Unmarked text) : optionalText one = optionalText two ↔ one = two := by
  have habsent : ∀ text, Unmarked text → text ≠ singleton absentMark := by
    rintro text htext rfl
    exact absurd htext (by decide +kernel)
  rcases one with _ | one <;> rcases two with _ | two
  · simp
  · simpa [optionalText] using (habsent two (h' two rfl)).symm
  · simpa [optionalText] using habsent one (h one rfl)
  · simp [optionalText]

theorem clean_optionalText {one : Option String} (h : ∀ text ∈ one, Unmarked text) :
    Clean (optionalText one) := by
  cases one with
  | none => exact clean_absentMark
  | some text => exact (h text rfl).clean

/-- Whether the texts of a subject have no marks. -/
def SpatialRef.Unmarked : SpatialRef → Prop
  | resolved id _ _ => Temporal.Unmarked id.text
  | unresolved source described => Temporal.Unmarked source.text ∧ Temporal.Unmarked described

theorem subjectToken_inj {one two : Option SpatialRef} (h : ∀ subject ∈ one, subject.Unmarked)
    (h' : ∀ subject ∈ two, subject.Unmarked) : subjectToken one = subjectToken two ↔
      one.map identity = two.map identity := by
  rw [← toList_inj]
  rcases one with _ | ⟨id, _, _⟩ | ⟨source, described⟩ <;>
    rcases two with _ | ⟨id', _, _⟩ | ⟨source', described'⟩ <;>
    simp [subjectToken, identity, absentMark]
  case some.resolved.some.resolved =>
    rw [toList_inj]
    exact ⟨fun h => congrArg SpatialId.mk h, fun h => congrArg SpatialId.text h⟩
  case some.unresolved.some.unresolved =>
    have hsource : fieldMark ∉ source.text.toList := (h _ rfl).1 _ (by decide)
    have hsource' : fieldMark ∉ source'.text.toList := (h' _ rfl).1 _ (by decide)
    rw [append_cons_inj hsource hsource', String.toList_inj, String.toList_inj]
    exact and_congr_left' ⟨fun heq => by cases source; cases source'; simp_all,
      fun heq => by rw [heq]⟩

theorem clean_subjectToken {one : Option SpatialRef} (h : ∀ subject ∈ one, subject.Unmarked) :
    Clean (subjectToken one) := by
  rcases one with _ | ⟨id, objectType, label⟩ | ⟨source, described⟩
  · exact clean_absentMark
  · have hid : Temporal.Unmarked id.text := h _ rfl
    exact (Clean.append (by decide +kernel) clean_fieldMark).append hid.clean
  · have htexts : Temporal.Unmarked source.text ∧ Temporal.Unmarked described := h _ rfl
    exact ((((Clean.append (by decide) clean_fieldMark).append htexts.1.clean).append
      clean_fieldMark).append htexts.2.clean)

theorem display_inj {one two : SpatialScope} :
    one.display = two.display ↔ one.kind = two.kind ∧ one.id = two.id := by
  have hfree : ∀ kind : ScopeKind, ':' ∉ (asStr kind).toList := by
    intro kind
    cases kind <;> decide
  have hchars : ∀ scope : SpatialScope, scope.display.toList =
      (asStr scope.kind).toList ++ ':' :: scope.id.toList := by
    intro scope
    simp [SpatialScope.display]
  rw [← toList_inj, hchars, hchars, append_cons_inj (hfree _) (hfree _), toList_inj,
    toList_inj, asStr_inj]

section Parts

variable {sha256 : Sha256} {printers : TokenPrinters}

/-- Whether two values give one text. -/
def SameToken (printers : TokenPrinters) (a b : Value) : Prop :=
  token printers a = token printers b

/-- Whether the text of a side has no marks. -/
def SideUnmarked (printers : TokenPrinters) (side : Option Value) : Prop :=
  ∀ value ∈ side, Unmarked (token printers value)

theorem sideText_inj (h : SideUnmarked printers one) (h' : SideUnmarked printers two) :
    sideText printers one = sideText printers two ↔ Rel (SameToken printers) one two := by
  have hmap : ∀ side : Option Value, SideUnmarked printers side →
      ∀ text ∈ side.map (token printers), Unmarked text := by
    intro side hside text htext
    obtain ⟨value, hvalue, rfl⟩ := Option.mem_map.1 htext
    exact hside value hvalue
  rw [sideText, sideText, optionalText_inj (hmap one h) (hmap two h')]
  cases one <;> cases two <;> simp [SameToken]

theorem clean_sideText {one : Option Value} (h : SideUnmarked printers one) :
    Clean (sideText printers one) := by
  refine clean_optionalText fun text htext => ?_
  obtain ⟨value, hvalue, rfl⟩ := Option.mem_map.1 htext
  exact h value hvalue

theorem elim_token_inj :
    one.elim "" (token printers) = two.elim "" (token printers) ↔
      Rel (SameToken printers) one two := by
  cases one <;> cases two <;> simp [SameToken, token_ne_empty, (token_ne_empty _).symm]

theorem elim_token_free {one : Option Value} (h : SideUnmarked printers one) (mark : Char)
    (hmark : mark ∈ [absentMark, fieldMark, nameMark, partMark]) :
    mark ∉ (one.elim "" (token printers)).toList := by
  cases one with
  | none => simp
  | some value => exact h value rfl mark hmark

theorem changeText_inj {one two : FieldChange} (hbefore : SideUnmarked printers one.before)
    (hafter : SideUnmarked printers one.after) (hbefore' : SideUnmarked printers two.before)
    (hafter' : SideUnmarked printers two.after) :
    changeText printers one = changeText printers two ↔ one.certainty = two.certainty ∧
      Rel (SameToken printers) one.before two.before ∧
        Rel (SameToken printers) one.after two.after := by
  have hchars : ∀ change : FieldChange, (changeText printers change).toList =
      (change.before.elim "" (token printers)).toList ++ fieldMark ::
        ((change.after.elim "" (token printers)).toList ++ fieldMark ::
          (asStr change.certainty).toList) := by
    intro change
    simp [changeText]
  rw [← toList_inj, hchars, hchars,
    append_cons_inj (elim_token_free hbefore _ (by decide)) (elim_token_free hbefore' _ (by decide)),
    append_cons_inj (elim_token_free hafter _ (by decide)) (elim_token_free hafter' _ (by decide)),
    toList_inj, toList_inj, toList_inj, elim_token_inj, elim_token_inj,
    asStr_inj]
  tauto

theorem clean_changeText {change : FieldChange} (hbefore : SideUnmarked printers change.before)
    (hafter : SideUnmarked printers change.after) : Clean (changeText printers change) := by
  have hside : ∀ side, SideUnmarked printers side → Clean (side.elim "" (token printers)) :=
    fun side h => ⟨elim_token_free h _ (by decide), elim_token_free h _ (by decide)⟩
  have hcertainty : Clean (asStr change.certainty) :=
    clean_asStr (by decide) change.certainty
  exact ((((hside _ hbefore).append clean_fieldMark).append (hside _ hafter)).append
    clean_fieldMark).append hcertainty

/-- A seed whose texts have none of the characters that structure what is digested. -/
structure EventSeed.SeparatorFree (printers : TokenPrinters) (seed : EventSeed) : Prop where
  provider : Unmarked seed.provenance.provider
  host : Unmarked seed.times.domain.host
  bootId : ∀ text ∈ seed.times.domain.bootId, Unmarked text
  subtype : ∀ text ∈ seed.subtype, Unmarked text
  scope : Unmarked seed.scope.id
  subject : ∀ subject ∈ seed.subject, subject.Unmarked
  related : ∀ subject ∈ seed.related, subject.Unmarked
  before : SideUnmarked printers seed.before
  after : SideUnmarked printers seed.after
  changes : ∀ change ∈ seed.changedFields, Unmarked change.field ∧
    SideUnmarked printers change.before ∧ SideUnmarked printers change.after
  payload : SideUnmarked printers seed.payload

/-! ### What the text of an event tells -/

theorem forall₂_of_map_iff {α β γ : Type*} {f : α → γ} {g : β → γ} {items : List α}
    {others : List β} : items.map f = others.map g ↔
      Forall₂ (fun item other => f item = g other) items others := by
  rw [← forall₂_eq_eq_eq, forall₂_map_left_iff, forall₂_map_right_iff]

theorem forall₂_congr_of_zip {α β : Type*} {r s : α → β → Prop} {items : List α} {others : List β}
    (h : ∀ item other, (item, other) ∈ items.zip others → (r item other ↔ s item other)) :
    Forall₂ r items others ↔ Forall₂ s items others := by
  rw [forall₂_iff_zip, forall₂_iff_zip]
  refine and_congr_right fun _ => ⟨fun hall _ _ hmem => ?_, fun hall _ _ hmem => ?_⟩
  · exact (h _ _ hmem).1 (hall hmem)
  · exact (h _ _ hmem).2 (hall hmem)

/-- The parts of related subjects tell which these are. -/
theorem relatedParts_inj {one two : List SpatialRef} (h : ∀ subject ∈ one, subject.Unmarked)
    (h' : ∀ subject ∈ two, subject.Unmarked) :
    (one.zipIdx.map fun related =>
        ("related." ++ toString related.2, subjectToken (some related.1))) =
      (two.zipIdx.map fun related =>
        ("related." ++ toString related.2, subjectToken (some related.1))) ↔
      one.map identity = two.map identity := by
  have hparts : ∀ subjects : List SpatialRef,
      (subjects.zipIdx.map fun related =>
        ("related." ++ toString related.2, subjectToken (some related.1))) =
      (subjects.map fun subject => subjectToken (some subject)).zipIdx.map fun related =>
        ("related." ++ toString related.2, related.1) := by
    intro subjects
    rw [zipIdx_map, map_map]
    rfl
  have htokens : (one.map fun subject => subjectToken (some subject)) =
      (two.map fun subject => subjectToken (some subject)) ↔
        one.map identity = two.map identity := by
    rw [forall₂_of_map_iff, forall₂_of_map_iff]
    refine forall₂_congr_of_zip fun subject other hmem => ?_
    have hone : ∀ held ∈ some subject, held.Unmarked := by
      rintro held ⟨⟩
      exact h _ (of_mem_zip hmem).1
    have htwo : ∀ held ∈ some other, held.Unmarked := by
      rintro held ⟨⟩
      exact h' _ (of_mem_zip hmem).2
    rw [subjectToken_inj hone htwo]
    simp
  rw [← htokens, hparts, hparts]
  refine ⟨fun heq => ?_, fun heq => by rw [heq]⟩
  have hsecond := congrArg (map Prod.snd) heq
  simpa [map_map, Function.comp_def] using hsecond

/-- The parts of field changes tell which these are. -/
theorem changeParts_inj {one two : List FieldChange}
    (h : ∀ change ∈ one, SideUnmarked printers change.before ∧ SideUnmarked printers change.after)
    (h' : ∀ change ∈ two, SideUnmarked printers change.before ∧
      SideUnmarked printers change.after) :
    (one.map fun change => ("changed." ++ change.field, changeText printers change)) =
      (two.map fun change => ("changed." ++ change.field, changeText printers change)) ↔
      Forall₂ (fun here there => here.field = there.field ∧
        here.certainty = there.certainty) one two ∧
      Forall₂ (fun here there => Rel (SameToken printers) here.before there.before ∧
        Rel (SameToken printers) here.after there.after) one two := by
  have hname : ∀ here there : FieldChange,
      "changed." ++ here.field = "changed." ++ there.field ↔ here.field = there.field := by
    intro here there
    rw [← String.toList_inj, String.toList_append, String.toList_append, append_right_inj,
      String.toList_inj]
  rw [forall₂_of_map_iff, forall₂_iff_zip, forall₂_iff_zip, forall₂_iff_zip]
  constructor
  · rintro ⟨hlength, hall⟩
    refine ⟨⟨hlength, fun hmem => ?_⟩, hlength, fun hmem => ?_⟩ <;>
      (have hone := h _ (of_mem_zip hmem).1
       have htwo := h' _ (of_mem_zip hmem).2
       have hparts := Prod.mk.inj (hall hmem)
       rw [hname, changeText_inj hone.1 hone.2 htwo.1 htwo.2] at hparts)
    · exact ⟨hparts.1, hparts.2.1⟩
    · exact hparts.2.2
  · rintro ⟨⟨hlength, hnames⟩, -, hsides⟩
    refine ⟨hlength, fun hmem => ?_⟩
    have hone := h _ (of_mem_zip hmem).1
    have htwo := h' _ (of_mem_zip hmem).2
    refine Prod.ext ((hname _ _).2 (hnames hmem).1) ?_
    exact (changeText_inj hone.1 hone.2 htwo.1 htwo.2).2 ⟨(hnames hmem).2, hsides hmem⟩

theorem before_notMem_related (subjects : List SpatialRef) :
    "before" ∉ (subjects.zipIdx.map fun related =>
      ("related." ++ toString related.2, subjectToken (some related.1))).map Prod.fst := by
  intro h
  simp only [map_map, mem_map, Function.comp_apply] at h
  obtain ⟨related, -, heq⟩ := h
  have hchars := congrArg String.toList heq
  simp at hchars

variable {a b : EventSeed}

/-- The parts of a body tell what it says. -/
theorem bodyParts_inj (ha : a.SeparatorFree printers) (hb : b.SeparatorFree printers) :
    bodyParts printers a = bodyParts printers b ↔
      a.subtype = b.subtype ∧ (a.scope.kind = b.scope.kind ∧ a.scope.id = b.scope.id) ∧
        a.related.map identity = b.related.map identity ∧
          Forall₂ (fun here there => here.field = there.field ∧
            here.certainty = there.certainty) a.changedFields b.changedFields ∧
              a.Sidewise (SameToken printers) b := by
  have hchanges := changeParts_inj (fun change hmem => (ha.changes change hmem).2)
    fun change hmem => (hb.changes change hmem).2
  have hsplit := fun rest rest' => @append_cons_inj_of_map _ _ Prod.fst _ _ rest rest'
    ("before", sideText printers a.before) ("before", sideText printers b.before) rfl
    (before_notMem_related a.related) (before_notMem_related b.related)
  have hlast : ∀ {items others : List (String × String)} {last last' : String × String},
      items ++ [last] = others ++ [last'] ↔ items = others ∧ last = last' := by
    intro items others last last'
    refine ⟨fun heq => ?_, fun ⟨hitems, hlast⟩ => by rw [hitems, hlast]⟩
    obtain ⟨hitems, hlast⟩ := append_inj' heq rfl
    exact ⟨hitems, singleton_inj.1 hlast⟩
  rw [bodyParts, bodyParts]
  simp only [cons.injEq, Prod.mk.injEq, true_and]
  rw [hsplit]
  simp only [cons.injEq, Prod.mk.injEq, true_and]
  rw [hlast, hchanges, relatedParts_inj ha.related hb.related, display_inj,
    optionalText_inj ha.subtype hb.subtype, sideText_inj ha.before hb.before,
    sideText_inj ha.after hb.after]
  simp only [Prod.mk.injEq, true_and]
  rw [sideText_inj ha.payload hb.payload]
  constructor
  · rintro ⟨hsubtype, hscope, hrelated, hbefore, hafter, ⟨hnames, hsides⟩, hpayload⟩
    exact ⟨hsubtype, hscope, hrelated, hnames, hbefore, hafter, hsides, hpayload⟩
  · rintro ⟨hsubtype, hscope, hrelated, hnames, hbefore, hafter, hsides, hpayload⟩
    exact ⟨hsubtype, hscope, hrelated, hbefore, hafter, ⟨hnames, hsides⟩, hpayload⟩

theorem clean_hexText (bytes : List UInt8) : Clean (hexText bytes) := by
  have hall := all_isHexChar_flatMap_hexByte bytes
  rw [all_eq_true] at hall
  constructor <;>
    (intro hmem
     rw [hexText, toList_ofList] at hmem
     exact absurd (hall _ hmem) (by decide))

theorem clean_bodyParts (ha : a.SeparatorFree printers) :
    ∀ part ∈ bodyParts printers a, Clean part.1 ∧ Clean part.2 := by
  intro part hpart
  simp only [bodyParts, mem_cons, mem_append, mem_map, not_mem_nil,
    or_false] at hpart
  rcases hpart with rfl | rfl | ⟨related, hrelated, rfl⟩ | rfl | rfl | ⟨change, hchange, rfl⟩ | rfl
  · exact ⟨(by decide : Clean "subtype"), clean_optionalText ha.subtype⟩
  · exact ⟨(by decide : Clean "scope"),
      (Clean.append (clean_asStr (by decide) _) (by decide)).append ha.scope.clean⟩
  · refine ⟨Clean.append (by decide) (unmarked_natText _).clean, clean_subjectToken ?_⟩
    rintro held ⟨⟩
    exact ha.related _ (fst_mem_of_mem_zipIdx hrelated)
  · exact ⟨(by decide : Clean "before"), clean_sideText ha.before⟩
  · exact ⟨(by decide : Clean "after"), clean_sideText ha.after⟩
  · obtain ⟨hfield, hbefore, hafter⟩ := ha.changes change hchange
    exact ⟨Clean.append (by decide) hfield.clean, clean_changeText hbefore hafter⟩
  · exact ⟨(by decide : Clean "payload"), clean_sideText ha.payload⟩

theorem unmarked_map_toString {numbers : Option Int} :
    ∀ text ∈ numbers.map toString, Unmarked text := by
  intro text htext
  obtain ⟨number, -, rfl⟩ := Option.mem_map.1 htext
  exact unmarked_intText number

theorem unmarked_map_natText {numbers : Option Nat} :
    ∀ text ∈ numbers.map toString, Unmarked text := by
  intro text htext
  obtain ⟨number, -, rfl⟩ := Option.mem_map.1 htext
  exact unmarked_natText number

theorem clean_eventParts (ha : a.SeparatorFree printers) :
    ∀ part ∈ eventParts sha256 printers a, Clean part.1 ∧ Clean part.2 := by
  intro part hpart
  simp only [eventParts, mem_cons, not_mem_nil, or_false] at hpart
  rcases hpart with rfl | rfl | rfl | rfl | rfl | rfl | rfl | rfl | rfl
  · exact ⟨(by decide : Clean "source"), ha.provider.clean⟩
  · exact ⟨(by decide : Clean "kind"), clean_asStr (by decide) _⟩
  · exact ⟨(by decide : Clean "subject"), clean_subjectToken ha.subject⟩
  · exact ⟨(by decide : Clean "source_time"), clean_optionalText unmarked_map_toString⟩
  · exact ⟨(by decide : Clean "observed_at"), (unmarked_intText _).clean⟩
  · exact ⟨(by decide : Clean "source_sequence"), clean_optionalText unmarked_map_natText⟩
  · exact ⟨(by decide : Clean "host"), ha.host.clean⟩
  · exact ⟨(by decide : Clean "boot_id"), clean_optionalText ha.bootId⟩
  · exact ⟨(by decide : Clean "body"), clean_hexText _⟩

/-- **What the text of an event tells.** Two seeds without separators give one text when they agree
on all but what their scopes are nested in, and the values in one place give one text. -/
theorem eventText_eq_iff (ha : a.SeparatorFree printers) (hb : b.SeparatorFree printers)
    (hhash : sha256 (bodyText printers a) = sha256 (bodyText printers b) →
      bodyText printers a = bodyText printers b) :
    eventText sha256 printers a = eventText sha256 printers b ↔
      a.AgreesBut b ∧ a.Sidewise (SameToken printers) b := by
  have hbody : finish sha256 (bodyText printers a) 32 = finish sha256 (bodyText printers b) 32 ↔
      bodyParts printers a = bodyParts printers b := by
    rw [finish_inj, ← digestText_inj (clean_bodyParts ha) (clean_bodyParts hb)]
    exact ⟨hhash, fun heq => by rw [bodyText, heq, bodyText]⟩
  have hint : Injective (toString : Int → String) := fun _ _ => Int.repr_injective
  have hnat : Injective (toString : Nat → String) := fun _ _ => Nat.repr_injective
  have htime : a.times.sourceTime.map toString = b.times.sourceTime.map toString ↔
      a.times.sourceTime = b.times.sourceTime := (map_injective hint).eq_iff
  have hsequence : a.times.sourceSequence.map toString = b.times.sourceSequence.map toString ↔
      a.times.sourceSequence = b.times.sourceSequence := (map_injective hnat).eq_iff
  have hdomain : a.times.domain.host = b.times.domain.host ∧
      a.times.domain.bootId = b.times.domain.bootId ↔ a.times.domain = b.times.domain := by
    refine ⟨fun ⟨hhost, hboot⟩ => ?_, fun heq => by rw [heq]; exact ⟨rfl, rfl⟩⟩
    cases hdomain : a.times.domain
    cases hdomain' : b.times.domain
    simp_all
  rw [eventText, eventText, digestText_inj (clean_eventParts ha) (clean_eventParts hb), eventParts,
    eventParts]
  simp only [cons.injEq, Prod.mk.injEq, true_and, and_true]
  rw [hbody, bodyParts_inj ha hb, asStr_inj, subjectToken_inj ha.subject hb.subject,
    optionalText_inj unmarked_map_toString unmarked_map_toString, htime, hint.eq_iff,
    optionalText_inj unmarked_map_natText unmarked_map_natText, hsequence,
    optionalText_inj ha.bootId hb.bootId]
  constructor
  · rintro ⟨hsource, hkind, hsubject, htime, hobserved, hsequence, hhost, hboot, hsubtype, hscope,
      hrelated, hchanges, hsides⟩
    exact ⟨⟨hsource, hkind, hsubject, htime, hobserved, hsequence, hdomain.1 ⟨hhost, hboot⟩,
      hsubtype, hscope.1, hscope.2, hrelated, hchanges⟩, hsides⟩
  · rintro ⟨h, hsides⟩
    have hclock := hdomain.2 h.domain
    exact ⟨h.source, h.kind, h.subject, h.sourceTime, h.observedAt, h.sourceSequence, hclock.1,
      hclock.2, h.subtype, ⟨h.scopeKind, h.scopeId⟩, h.related, h.changes, hsides⟩

/-- **When the identity of an event is the identity of what was observed.** Where the values in one
place of two seeds are told apart, the text digested tells whether these report one observation
exactly when, for seeds that agree on the rest, having one scope and equal values is the same as
having values that are alike. -/
theorem eventText_identifies_iff (powi : ℕ → UInt64) (ha : a.SeparatorFree printers)
    (hb : b.SeparatorFree printers)
    (hhash : sha256 (bodyText printers a) = sha256 (bodyText printers b) →
      bodyText printers a = bodyText printers b)
    (htold : ∀ one two, a.Facing b one two → TokensToldApart printers one two) :
    (eventText sha256 printers a = eventText sha256 printers b ↔ a.Agrees powi b) ↔
      (a.AgreesBut b → (a.Sidewise (TokensAlike printers) b ↔
        a.scope = b.scope ∧ a.Sidewise (EqualUnobserved powi) b)) := by
  have hsides : a.Sidewise (SameToken printers) b ↔ a.Sidewise (TokensAlike printers) b :=
    EventSeed.sidewise_congr fun one two hfacing => token_eq_iff (htold one two hfacing)
  rw [eventText_eq_iff ha hb hhash, EventSeed.agrees_iff, hsides]
  exact and_congr_right_iff

end Parts

/-! ### Two containers of one name -/

/-- A source-native event in a scope, with a payload. -/
def nativeSeed (scope : SpatialScope) (payload : Option Value) : EventSeed where
  kind := .providerEvent
  subtype := none
  scope := scope
  subject := none
  related := []
  times := ⟨none, 0, 0, none, none, none, "local", none⟩
  before := none
  after := none
  changedFields := []
  evidence := []
  causalParents := []
  payload := payload
  provenance :=
    ⟨"linux.journald", none, none, .onThisHost, ⟨"ono.temporal-event", 1⟩, none, none⟩

/-- The container `web` of a host. -/
def webOf (host : String) : SpatialScope :=
  .nest (.host host (.new host "boot")) .container "web"

theorem separatorFree_nativeSeed {printers : TokenPrinters} {scope : SpatialScope}
    {payload : Option Value} (hscope : Unmarked scope.id) (hpayload : SideUnmarked printers payload) :
    (nativeSeed scope payload).SeparatorFree printers where
  provider := by
    show Unmarked "linux.journald"
    decide +kernel
  host := by
    show Unmarked "local"
    decide +kernel
  bootId := nofun
  subtype := nofun
  scope := hscope
  subject := nofun
  related := nofun
  before := nofun
  after := nofun
  changes := nofun
  payload := hpayload

/-- What the libraries print, where nothing is printed. -/
def silentPrinters : TokenPrinters where
  float _ := ""
  timestamp _ := ""
  path _ := none
  address _ := ""
  debug _ := ""
  errorNumber _ := ""

theorem eventText_identifies_containers :
    (eventText (fun _ => Vector.replicate 32 0) silentPrinters (nativeSeed (webOf "left") none) =
        eventText (fun _ => Vector.replicate 32 0) silentPrinters (nativeSeed (webOf "right") none) ↔
      (nativeSeed (webOf "left") none).Agrees (fun _ => 0) (nativeSeed (webOf "right") none)) ↔
    ((nativeSeed (webOf "left") none).AgreesBut (nativeSeed (webOf "right") none) →
      ((nativeSeed (webOf "left") none).Sidewise (TokensAlike silentPrinters)
          (nativeSeed (webOf "right") none) ↔
        webOf "left" = webOf "right" ∧
          (nativeSeed (webOf "left") none).Sidewise (EqualUnobserved fun _ => 0)
            (nativeSeed (webOf "right") none))) := by
  refine eventText_identifies_iff _ (separatorFree_nativeSeed (by decide +kernel) nofun)
    (separatorFree_nativeSeed (by decide +kernel) nofun) (fun _ => rfl) ?_
  rintro one two (⟨⟨⟩, -⟩ | ⟨⟨⟩, -⟩ | ⟨⟨⟩, -⟩ | ⟨changes, hmem, -⟩)
  cases hmem

/-- Two containers of one name give their events one identity, and so do a list of two strings and
the string that spells them. -/
theorem not_eventText_identifies :
    (¬∀ (sha256 : Sha256) (printers : TokenPrinters) (powi : ℕ → UInt64) (a b : EventSeed),
      a.SeparatorFree printers → b.SeparatorFree printers →
        (sha256 (bodyText printers a) = sha256 (bodyText printers b) →
          bodyText printers a = bodyText printers b) →
        (eventText sha256 printers a = eventText sha256 printers b ↔ a.Agrees powi b)) ∧
      ¬∀ (sha256 : Sha256) (printers : TokenPrinters) (powi : ℕ → UInt64) (a b : EventSeed),
        a.SeparatorFree printers → b.SeparatorFree printers → a.scope = b.scope →
          (sha256 (bodyText printers a) = sha256 (bodyText printers b) →
            bodyText printers a = bodyText printers b) →
          (eventText sha256 printers a = eventText sha256 printers b ↔ a.Agrees powi b) := by
  refine ⟨fun h => ?_, fun h => ?_⟩
  · have hagrees := (h (fun _ => Vector.replicate 32 0) silentPrinters (fun _ => 0)
      (nativeSeed (webOf "left") none) (nativeSeed (webOf "right") none)
      (separatorFree_nativeSeed (by decide +kernel) nofun) (separatorFree_nativeSeed (by decide +kernel) nofun)
      fun _ => rfl).1 rfl
    exact absurd hagrees.scope (by decide)
  · have hfree : ∀ strings : List Value,
        Unmarked (token silentPrinters (.list strings)) →
          (nativeSeed (webOf "left") (some (.list strings))).SeparatorFree silentPrinters := by
      intro strings hunmarked
      refine separatorFree_nativeSeed (by decide +kernel) ?_
      rintro value ⟨⟩
      exact hunmarked
    have hagrees := (h (fun _ => Vector.replicate 32 0) silentPrinters (fun _ => 0)
      (nativeSeed (webOf "left") (some (.list [.string "a", .string "b"])))
      (nativeSeed (webOf "left") (some (.list [.string "a,string:b"])))
      (hfree _ (by decide +kernel)) (hfree _ (by decide +kernel)) rfl fun _ => rfl).1 rfl
    have hequal := hagrees.payload
    simp only [nativeSeed, rel_some_some] at hequal
    simp only [EqualUnobserved] at hequal
    exact absurd hequal (by decide +kernel)

end OnoSendai.Temporal
