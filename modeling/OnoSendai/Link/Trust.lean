import OnoSendai.Lib.Transition
import OnoSendai.Lib.Words
import OnoSendai.Link.Authorization

/-!
# The trust store

The pinned host keys of a shell and the file they live in (`ono_protocol::trust`). The store keeps
its pins in memory, and every call that changes them writes the whole file again, beside the old
one and then over it. Each step of a write is answered by the system and may fail; a file holds
text.

The hash is a third-party function and a parameter.
-/

namespace OnoSendai.Link

open Interaction List Separated
open Option hiding or_self
open String hiding map

/-! ### Fingerprints -/

/-- The word before the digits of a fingerprint. -/
def fingerprintMarker : List Char :=
  ['s', 'h', 'a', '2', '5', '6', ':']

theorem toList_text (fingerprint : Fingerprint) :
    fingerprint.text.toList = fingerprintMarker ++ fingerprint.digest.toList.flatMap hexByte := by
  simp [Fingerprint.text, hexText, fingerprintMarker]

/-- The value of a hexadecimal digit. -/
def toDigit (c : Char) : Option Nat :=
  if '0' ≤ c ∧ c ≤ '9' then some (c.toNat - '0'.toNat)
  else if 'a' ≤ c ∧ c ≤ 'f' then some (c.toNat - 'a'.toNat + 10)
  else if 'A' ≤ c ∧ c ≤ 'F' then some (c.toNat - 'A'.toNat + 10)
  else none

/-- A byte read from two characters, the first of which may be a plus sign. -/
def fromStrRadix (high low : Char) : Option UInt8 :=
  if high = '+' then (toDigit low).map UInt8.ofNat
  else (toDigit high).bind fun h => (toDigit low).map fun l => UInt8.ofNat (16 * h + l)

/-- The bytes of a sequence of digit pairs. -/
def fromPairs : List Char → Option (List UInt8)
  | [] => some []
  | [_] => none
  | high :: low :: rest =>
    (fromStrRadix high low).bind fun byte => (fromPairs rest).map (byte :: ·)

/-- The refusal of a text that is not a fingerprint. -/
def malformedFingerprint (text : List Char) : ErrorValue where
  code := .other "parse.syntax"
  message := "`" ++ ofList text ++
    "` is not a fingerprint; expected `sha256:` and 64 hex digits"

/-- The digits of a fingerprint, where there are 64 bytes of them. -/
def Fingerprint.ofDigits (digits : List Char) : Option Fingerprint :=
  if (digits.map Char.utf8Size).sum = 64 then
    (fromPairs digits).bind fun bytes =>
      if h : bytes.toArray.size = 32 then some ⟨⟨bytes.toArray, h⟩⟩ else none
  else
    none

/-- Reads a fingerprint. -/
def Fingerprint.fromStr (text : List Char) : Except ErrorValue Fingerprint :=
  match (text.dropPrefix? fingerprintMarker).bind ofDigits with
  | some fingerprint => .ok fingerprint
  | none => .error (malformedFingerprint text)

theorem toDigit_hexDigit (n : Fin 16) : toDigit (hexDigit n) = some n.val := by
  revert n
  decide

theorem hexDigit_ne_plus (n : Fin 16) : hexDigit n ≠ '+' := by
  revert n
  decide

theorem utf8Size_hexDigit (n : Fin 16) : (hexDigit n).utf8Size = 1 := by
  revert n
  decide

theorem fromPairs_flatMap_hexByte (bytes : List UInt8) :
    fromPairs (bytes.flatMap hexByte) = some bytes := by
  induction bytes with
  | nil => rfl
  | cons byte bytes ih =>
    have hbyte : 16 * (byte.toNat / 16) + byte.toNat % 16 = byte.toNat := Nat.div_add_mod _ _
    simp only [flatMap_cons, hexByte, cons_append, nil_append, fromPairs,
      fromStrRadix, hexDigit_ne_plus, if_false, toDigit_hexDigit, bind_some,
      map_some, hbyte, UInt8.ofNat_toNat, ih]

theorem sum_utf8Size_flatMap_hexByte (bytes : List UInt8) :
    ((bytes.flatMap hexByte).map Char.utf8Size).sum = 2 * bytes.length := by
  induction bytes with
  | nil => rfl
  | cons byte bytes ih =>
    simp only [flatMap_cons, map_append, sum_append, ih, hexByte, map_cons,
      map_nil, utf8Size_hexDigit, sum_cons, sum_nil, length_cons]
    omega

/-- **A fingerprint is read back** from its text. -/
theorem Fingerprint.fromStr_text (fingerprint : Fingerprint) :
    fromStr fingerprint.text.toList = .ok fingerprint := by
  obtain ⟨bytes⟩ := fingerprint
  have hsize : (bytes.toList.flatMap hexByte |>.map Char.utf8Size).sum = 64 := by
    rw [sum_utf8Size_flatMap_hexByte, Vector.length_toList]
  have hdigits : ofDigits (bytes.toList.flatMap hexByte) = some ⟨bytes⟩ := by
    rw [ofDigits, if_pos hsize, fromPairs_flatMap_hexByte, bind_some, dif_pos (by simp)]
    rfl
  rw [fromStr, toList_text, dropPrefix?_append_of_beq _ (BEq.rfl), bind_some, hdigits]

/-! ### The file -/

/-- Whether a character is white space. -/
def isWhitespace (c : Char) : Bool :=
  let n := c.toNat
  (0x9 ≤ n && n ≤ 0xd) || n = 0x20 || n = 0x85 || n = 0xa0 || n = 0x1680 ||
    (0x2000 ≤ n && n ≤ 0x200a) || n = 0x2028 || n = 0x2029 || n = 0x202f || n = 0x205f ||
    n = 0x3000

theorem forall_isWhitespace_eq_false {text : List Char}
    (h : text.all (fun c => !isWhitespace c) = true) : ∀ c ∈ text, isWhitespace c = false := by
  simpa using h

/-- One recorded peer. -/
structure TrustEntry where
  host : String
  algorithm : String
  fingerprint : Fingerprint

/-- The lines of the header. -/
def headerLines : List (List Char) :=
  ['#' :: " ono trust store: one line per peer, `<host> <algorithm> <fingerprint>`.".toList,
    '#' :: (" A peer presenting a different key than the line here records is refused, " ++
      "not prompted.").toList,
    '#' :: (" Remove a line to forget a host; edit one only if you have checked the new key " ++
      "another way.").toList]

/-- The header written above the pins. -/
def fileHeader : String :=
  ofList (terminated '\n' headerLines)

/-- The line of an entry, without its end. -/
def TrustEntry.line (entry : TrustEntry) : String :=
  entry.host ++ " " ++ entry.algorithm ++ " " ++ entry.fingerprint.text

/-- The text of the file. -/
def render (entries : List TrustEntry) : String :=
  fileHeader ++ join (entries.map fun entry => entry.line ++ "\n")

/-- A line without the carriage return of its end. -/
def withoutReturn (line : List Char) : List Char :=
  if line.getLast? = some '\r' then line.dropLast else line

/-- The lines of a text: what ends with a line feed, with or without a carriage return before it,
and what follows the last one. -/
def lines (text : List Char) : List (List Char) :=
  let parts := text.splitOn '\n'
  parts.dropLast.map withoutReturn ++ (parts.getLast?.toList.filter (!·.isEmpty))

/-- The refusal of a line that is not three fields. -/
def malformedLine (path : String) (index : Nat) : ErrorValue where
  code := .other "parse.syntax"
  message := path ++ ": line " ++ toString (index + 1) ++
    " is not `<host> <algorithm> <fingerprint>`"

/-- What one line of the file says, where it says anything. -/
def parseLine (path : String) (index : Nat) (line : List Char) :
    Except ErrorValue (Option TrustEntry) :=
  let line := trimmed isWhitespace line
  if line = [] ∨ line.head? = some '#' then
    .ok none
  else
    match words isWhitespace line with
    | [host, algorithm, fingerprint] =>
      (Fingerprint.fromStr fingerprint).map fun fingerprint =>
        some ⟨ofList host, ofList algorithm, fingerprint⟩
    | _ => .error (malformedLine path index)

/-- What lines numbered from an index say. -/
def parseLines (path : String) : Nat → List (List Char) → Except ErrorValue (List TrustEntry)
  | _, [] => .ok []
  | index, line :: lines => do
    let entry ← parseLine path index line
    let entries ← parseLines path (index + 1) lines
    pure (entry.toList ++ entries)

/-- Reads the text of the file. -/
def parse (text : String) (path : String) : Except ErrorValue (List TrustEntry) :=
  parseLines path 0 (lines text.toList)

/-- A name the file can hold as one field: not empty, no white space, no comment mark first. -/
def IsName (name : String) : Prop :=
  name.toList ≠ [] ∧ (∀ c ∈ name.toList, isWhitespace c = false) ∧ name.toList.head? ≠ some '#'

instance (name : String) : Decidable (IsName name) :=
  @instDecidableAnd _ _ inferInstance
    (@instDecidableAnd _ _ (decidableBAll _ name.toList) inferInstance)

/-- An entry whose line is read back. -/
structure TrustEntry.Written (entry : TrustEntry) : Prop where
  host : IsName entry.host
  algorithm : entry.algorithm.toList ≠ [] ∧
    ∀ c ∈ entry.algorithm.toList, isWhitespace c = false

section Format

variable {path : String} {index : Nat} {entry : TrustEntry} {entries : List TrustEntry}

theorem isWhitespace_hexDigit (n : Fin 16) : isWhitespace (hexDigit n) = false := by
  revert n
  decide

theorem isWhitespace_of_mem_text (fingerprint : Fingerprint) :
    ∀ c ∈ fingerprint.text.toList, isWhitespace c = false := by
  intro c hc
  rw [toList_text, mem_append, mem_flatMap] at hc
  rcases hc with hc | ⟨byte, _, hc⟩
  · have hmarker : fingerprintMarker.all (fun c => !isWhitespace c) = true := by decide
    simpa using all_eq_true.mp hmarker c hc
  · simp only [hexByte, mem_cons, not_mem_nil, or_false] at hc
    rcases hc with rfl | rfl <;> exact isWhitespace_hexDigit _

theorem text_ne_nil (fingerprint : Fingerprint) : fingerprint.text.toList ≠ [] := by
  simp [toList_text, fingerprintMarker]

theorem toList_line (entry : TrustEntry) :
    entry.line.toList = entry.host.toList ++ ' ' :: (entry.algorithm.toList ++
      ' ' :: entry.fingerprint.text.toList) := by
  simp [TrustEntry.line]

theorem words_line (h : entry.Written) :
    words isWhitespace entry.line.toList =
      [entry.host.toList, entry.algorithm.toList, entry.fingerprint.text.toList] := by
  rw [toList_line, words_append_cons h.host.2.1 h.host.1 (by decide),
    words_append_cons h.algorithm.2 h.algorithm.1 (by decide),
    words_eq_singleton (isWhitespace_of_mem_text _) (text_ne_nil _)]

theorem head_line (h : entry.Written) : entry.line.toList.head? = entry.host.toList.head? := by
  obtain ⟨first, rest, hhost⟩ := exists_cons_of_ne_nil h.host.1
  rw [toList_line, hhost]
  rfl

theorem isWhitespace_of_getLast_line {c : Char} (h : c ∈ entry.line.toList.getLast?) :
    isWhitespace c = false := by
  have hlast : entry.line.toList.getLast? = entry.fingerprint.text.toList.getLast? := by
    obtain ⟨first, rest, htext⟩ := exists_cons_of_ne_nil (text_ne_nil entry.fingerprint)
    rw [toList_line, htext]
    simp [getLast?_append, getLast?_cons]
  rw [hlast] at h
  exact isWhitespace_of_mem_text _ c (mem_of_getLast? h)

/-- **A written line is read back.** -/
theorem parseLine_line (h : entry.Written) :
    parseLine path index entry.line.toList = .ok (some entry) := by
  have hhead : ∀ c ∈ entry.line.toList.head?, isWhitespace c = false := by
    intro c hc
    rw [head_line h] at hc
    exact h.host.2.1 c (mem_of_mem_head? hc)
  have hne : entry.line.toList ≠ [] := by simp [toList_line]
  have hcomment : entry.line.toList.head? ≠ some '#' := by
    rw [head_line h]
    exact h.host.2.2
  unfold parseLine
  rw [Separated.trimmed_eq hhead fun c hc => isWhitespace_of_getLast_line hc]
  simp only [hne, hcomment, or_self, if_false, words_line h, Fingerprint.fromStr_text,
    Except.map, String.ofList_toList]

theorem not_mem_line (h : entry.Written) : '\n' ∉ entry.line.toList := by
  intro hmem
  rw [toList_line] at hmem
  simp only [mem_append, mem_cons] at hmem
  rcases hmem with hmem | hmem | hmem | hmem | hmem
  · exact absurd (h.host.2.1 _ hmem) (by decide)
  · exact absurd hmem (by decide)
  · exact absurd (h.algorithm.2 _ hmem) (by decide)
  · exact absurd hmem (by decide)
  · exact absurd (isWhitespace_of_mem_text _ _ hmem) (by decide)

theorem withoutReturn_line : withoutReturn entry.line.toList = entry.line.toList := by
  refine if_neg fun h => ?_
  exact absurd (isWhitespace_of_getLast_line h) (by decide)

theorem exists_withoutReturn_cons {c : Char} (rest : List Char) (h : c ≠ '\r') :
    ∃ kept, withoutReturn (c :: rest) = c :: kept := by
  rw [withoutReturn]
  split_ifs with hlast
  · cases rest with
    | nil => exact absurd (some.inj hlast) h
    | cons next rest => exact ⟨_, rfl⟩
  · exact ⟨rest, rfl⟩

theorem lines_terminated {parts : List (List Char)} (h : ∀ part ∈ parts, '\n' ∉ part) :
    lines (terminated '\n' parts) = parts.map withoutReturn := by
  simp [lines, splitOn_terminated h]

/-- Lines of known content are read one after another. -/
theorem parseLines_append {β : Type} {line : β → List Char} {said : β → Option TrustEntry}
    {items : List β} (rest : List (List Char))
    (h : ∀ item ∈ items, ∀ index, parseLine path index (line item) = .ok (said item)) :
    parseLines path index (items.map line ++ rest) =
      (parseLines path (index + items.length) rest).map (items.filterMap said ++ ·) := by
  induction items generalizing index with
  | nil =>
    cases hrest : parseLines path index rest <;> simp [hrest, Except.map]
  | cons item items ih =>
    have hitems : parseLines path (index + 1) (items.map line ++ rest) =
        (parseLines path (index + 1 + items.length) rest).map (items.filterMap said ++ ·) :=
      ih fun item hitem => h item (mem_cons_of_mem _ hitem)
    rw [map_cons, cons_append, parseLines, h item mem_cons_self, hitems,
      length_cons, Nat.add_right_comm, Nat.add_assoc index items.length 1]
    cases parseLines path (index + (items.length + 1)) rest <;>
      cases hsaid : said item <;> simp [bind, Except.bind, Except.map, pure, Except.pure, hsaid]

theorem toList_render (entries : List TrustEntry) :
    (render entries).toList = terminated '\n' (headerLines ++ entries.map (·.line.toList)) := by
  rw [render, toList_append, fileHeader, toList_ofList, toList_join_map]
  simp only [terminated, flatMap_append]

theorem parseLine_of_mem_headerLines {line : List Char} (h : line ∈ headerLines) (index : Nat) :
    parseLine path index (withoutReturn line) = .ok none := by
  obtain ⟨rest, rfl⟩ : ∃ rest, line = '#' :: rest := by
    simp only [headerLines, mem_cons, not_mem_nil, or_false] at h
    rcases h with rfl | rfl | rfl <;> exact ⟨_, rfl⟩
  obtain ⟨rest, hline⟩ := exists_withoutReturn_cons (c := '#') rest (by decide)
  obtain ⟨kept, htrimmed⟩ : ∃ kept, trimmed isWhitespace ('#' :: rest) = '#' :: kept :=
    trimmed_cons (by decide)
  unfold parseLine
  simp only [hline, htrimmed, head?_cons, or_true, if_true]

/-- A literal is the text of its characters, which spares their encoding. -/
theorem notMem_toList {c : Char} {text : List Char} (h : c ∉ text) : c ∉ (ofList text).toList := by
  rwa [toList_ofList]

/-- **The written pins are read back.** -/
theorem parse_render (h : ∀ entry ∈ entries, entry.Written) (path : String) :
    parse (render entries) path = .ok entries := by
  have hfeeds : ∀ part ∈ headerLines ++ entries.map (·.line.toList), '\n' ∉ part := by
    intro part hpart
    rcases mem_append.mp hpart with hpart | hpart
    · have hheader : ∀ line ∈ headerLines, '\n' ∉ line := by
        simp only [headerLines, forall_mem_cons, toList_append]
        simp only [mem_cons, mem_append, not_or]
        exact ⟨⟨by decide, notMem_toList (by decide)⟩,
          ⟨by decide, notMem_toList (by decide), notMem_toList (by decide)⟩,
          ⟨by decide, notMem_toList (by decide), notMem_toList (by decide)⟩, nofun⟩
      exact hheader part hpart
    · obtain ⟨entry, hentry, rfl⟩ := mem_map.mp hpart
      exact not_mem_line (h entry hentry)
  have hentries : (entries.map (·.line.toList)).map withoutReturn =
      entries.map (·.line.toList) ++ [] := by
    simp [withoutReturn_line]
  rw [parse, toList_render, lines_terminated hfeeds, map_append,
    parseLines_append _ fun line hline index => parseLine_of_mem_headerLines hline index, hentries,
    parseLines_append [] fun entry hentry _ => parseLine_line (h entry hentry)]
  simp [parseLines, Except.map]

/-- What a line says can be written as one. -/
theorem written_of_parseLine {line : List Char} (h : parseLine path index line = .ok (some entry)) :
    entry.Written := by
  simp only [parseLine] at h
  by_cases hskip : Separated.trimmed isWhitespace line = [] ∨
      (Separated.trimmed isWhitespace line).head? = some '#'
  · rw [if_pos hskip] at h
    cases h
  rw [if_neg hskip] at h
  rw [not_or] at hskip
  obtain ⟨first, rest, htrimmed⟩ := exists_cons_of_ne_nil hskip.1
  have hfirst : isWhitespace first = false :=
    Separated.of_head_trimmed
      (show first ∈ (Separated.trimmed isWhitespace line).head? by simp [htrimmed])
  obtain ⟨word, others, hwords⟩ : ∃ word others,
      Separated.words isWhitespace (first :: rest) = (first :: word) :: others :=
    Separated.words_cons hfirst
  have hword {word : List Char} (hmem : word ∈ Separated.words isWhitespace (first :: rest)) :=
    Separated.forall_of_mem_words hmem
  rw [htrimmed, hwords] at h
  rw [hwords] at hword
  rcases others with _ | ⟨algorithm, _ | ⟨fingerprint, _ | ⟨_, _⟩⟩⟩
  · cases h
  · cases h
  · cases hfingerprint : Fingerprint.fromStr fingerprint with
    | error error => simp [hfingerprint, Except.map] at h
    | ok fingerprint =>
      simp only [hfingerprint, Except.map] at h
      obtain rfl := Option.some.inj (Except.ok.inj h)
      refine ⟨⟨?_, ?_, ?_⟩, ?_, ?_⟩
      · simp
      · simpa using (hword mem_cons_self).2
      · simpa [htrimmed] using hskip.2
      · simpa using (hword (mem_cons_of_mem _ mem_cons_self)).1
      · simpa using (hword (mem_cons_of_mem _ mem_cons_self)).2
  · cases h

/-- What a file says can be written. -/
theorem written_of_parseLines {lines : List (List Char)}
    (h : parseLines path index lines = .ok entries) : ∀ entry ∈ entries, entry.Written := by
  induction lines generalizing index entries with
  | nil =>
    obtain rfl := Except.ok.inj h
    simp
  | cons line lines ih =>
    rw [parseLines] at h
    cases hline : parseLine path index line with
    | error error => simp [hline, bind, Except.bind] at h
    | ok said =>
      cases hlines : parseLines path (index + 1) lines with
      | error error => simp [hline, hlines, bind, Except.bind] at h
      | ok others =>
        rw [hline, hlines] at h
        obtain rfl := Except.ok.inj h
        intro entry hentry
        rcases mem_append.mp hentry with hentry | hentry
        · rw [Option.mem_toList] at hentry
          exact written_of_parseLine (hentry ▸ hline)
        · exact ih hlines entry hentry

end Format

/-! ### Writing the file -/

/-- A file's path: its directory, and its name in the parts before and after the last dot. -/
structure StorePath where
  parent : String
  stem : String
  extension : Option String
deriving DecidableEq

namespace StorePath

/-- The path with another extension. -/
def withExtension (path : StorePath) (extension : String) : StorePath :=
  { path with extension := some extension }

/-- The path as it is shown. -/
def display (path : StorePath) : String :=
  (if path.parent = "" then "" else path.parent ++ "/") ++ path.stem ++
    path.extension.elim "" ("." ++ ·)

/-- The file a path's contents are written to before they replace it. -/
def temporary (path : StorePath) : StorePath :=
  path.withExtension "tmp"

end StorePath

/-- The kinds of input and output error the store tells apart. -/
inductive IoErrorKind
  | notFound
  | permissionDenied
  | other

/-- An input or output error. -/
structure IoError where
  kind : IoErrorKind
  text : String

/-- The refusal an input or output error becomes. -/
def ioError (path : String) (error : IoError) : ErrorValue where
  code := .other (match error.kind with
    | .permissionDenied => "io.permission_denied"
    | .notFound | .other => "io.not_found")
  message := "the trust store at " ++ path ++ " is not usable: " ++ error.text

/-- The files of the system. -/
abbrev Files : Type :=
  StorePath → Option String

namespace Files

/-- A file with new contents. -/
def write (files : Files) (path : StorePath) (contents : String) : Files :=
  fun other => if other = path then some contents else files other

/-- A file moved over another. -/
def rename (files : Files) (source target : StorePath) : Files :=
  fun other => if other = target then files source else if other = source then none else files other

end Files

/-- How the system answers the steps of one write. A write that fails leaves some text behind. -/
structure Attempt where
  createDirAll : Option IoError
  create : Option IoError
  writeAll : Option (String × IoError)
  syncAll : Option IoError
  rename : Option IoError

namespace Attempt

/-- The attempt in which every step succeeds. -/
def successful : Attempt where
  createDirAll := none
  create := none
  writeAll := none
  syncAll := none
  rename := none

/-- Whether some step of a write to the path fails. The directory is only made where the path names
one. -/
def fails (attempt : Attempt) (path : StorePath) : Bool :=
  (path.parent ≠ "" && attempt.createDirAll.isSome) || attempt.create.isSome ||
    attempt.writeAll.isSome || attempt.syncAll.isSome || attempt.rename.isSome

end Attempt

/-- Writes contents beside the file and puts them in its place. -/
def persist (files : Files) (path : StorePath) (contents : String) (attempt : Attempt) :
    Except ErrorValue Unit × Files :=
  match (if path.parent ≠ "" then attempt.createDirAll else none), attempt.create,
      attempt.writeAll, attempt.syncAll, attempt.rename with
  | some error, _, _, _, _ => (.error (ioError path.parent error), files)
  | none, some error, _, _, _ => (.error (ioError path.temporary.display error), files)
  | none, none, some (written, error), _, _ =>
    (.error (ioError path.temporary.display error), files.write path.temporary written)
  | none, none, none, some error, _ =>
    (.error (ioError path.temporary.display error), files.write path.temporary contents)
  | none, none, none, none, some error =>
    (.error (ioError path.display error), files.write path.temporary contents)
  | none, none, none, none, none =>
    (.ok (), (files.write path.temporary contents).rename path.temporary path)

section Persist

variable (files : Files) {path : StorePath} (contents : String) {attempt : Attempt}

theorem persist_of_not_fails (h : attempt.fails path = false) :
    ∃ files', persist files path contents attempt = (.ok (), files') ∧
      files' path = some contents := by
  refine ⟨(files.write path.temporary contents).rename path.temporary path, ?_, ?_⟩
  · unfold Attempt.fails at h
    simp only [Bool.or_eq_false_iff, isSome_eq_false_iff, isNone_iff_eq_none] at h
    obtain ⟨⟨⟨⟨hdir, hcreate⟩, hwrite⟩, hsync⟩, hrename⟩ := h
    have hparent : (if path.parent ≠ "" then attempt.createDirAll else none) = none := by
      split_ifs with hempty
      · simpa [hempty] using hdir
      · rfl
    rw [persist, hparent, hcreate, hwrite, hsync, hrename]
  · simp [Files.rename, Files.write]

/-- A write that fails is reported, and touches no file but the temporary one. -/
theorem persist_of_fails (h : attempt.fails path = true) :
    ∃ error files', persist files path contents attempt = (.error error, files') ∧
      ∀ other, other ≠ path.temporary → files' other = files other := by
  have hwrite (text : String) (other : StorePath) (hother : other ≠ path.temporary) :
      files.write path.temporary text other = files other := if_neg hother
  unfold persist
  split
  · exact ⟨_, _, rfl, fun _ _ => rfl⟩
  · exact ⟨_, _, rfl, fun _ _ => rfl⟩
  · exact ⟨_, _, rfl, hwrite _⟩
  · exact ⟨_, _, rfl, hwrite _⟩
  · exact ⟨_, _, rfl, hwrite _⟩
  · rename_i hdir hcreate hwriteAll hsync hrename
    exfalso
    by_cases hparent : path.parent = "" <;>
      simp_all [Attempt.fails]

end Persist

/-! ### The store -/

/-- What the store concluded about a peer. -/
inductive TrustDecision
  | pinned
  | newlyPinned
  | unauthenticated

/-- How much a link demands of a peer's identity. -/
inductive TrustPolicy
  | required
  | pinned
  | unauthenticated

/-- The pins, and the file they live in where they live in one. -/
structure TrustStore where
  entries : List TrustEntry
  path : Option StorePath

/-- Reads a file whole. -/
def readToString (files : Files) (path : StorePath) (failure : Option IoError) :
    Except IoError String :=
  match failure, files path with
  | some error, _ => .error error
  | none, some text => .ok text
  | none, none => .error ⟨.notFound, "No such file or directory (os error 2)"⟩

namespace TrustStore

/-- A store that lives no longer than the shell. -/
def inMemory : TrustStore where
  entries := []
  path := none

/-- The store a file records, empty where there is no file yet. -/
def ofFile (files : Files) (path : StorePath) (failure : Option IoError) :
    Except ErrorValue TrustStore :=
  match readToString files path failure with
  | .ok text => (parse text path.display).map fun entries => ⟨entries, some path⟩
  | .error error =>
    match error.kind with
    | .notFound => .ok ⟨[], some path⟩
    | .permissionDenied | .other => .error (ioError path.display error)

/-- The fingerprint recorded for a host. -/
def fingerprint (store : TrustStore) (host : String) : Option Fingerprint :=
  (store.entries.find? (·.host = host)).map (·.fingerprint)

end TrustStore

/-- The refusal of a key that is not the recorded one. -/
def hostKeyChanged (host : String) (recorded presented : Fingerprint) : ErrorValue where
  code := .other "remote.host_key_changed"
  message := host ++ " presented " ++ presented.text ++ ", and the trust store records " ++
    recorded.text ++ " for it"

/-- A store and the files around it. -/
structure TrustState where
  store : TrustStore
  files : Files

namespace TrustState

/-- Replaces the pins in memory, and then writes the file. -/
def replace (state : TrustState) (entries : List TrustEntry) (attempt : Attempt) :
    Except ErrorValue Unit × TrustState :=
  match state.store.path with
  | none => (.ok (), { state with store.entries := entries })
  | some path =>
    let written := persist state.files path (render entries) attempt
    (written.1, { store := { state.store with entries }, files := written.2 })

/-- Appends an entry and writes the file. -/
def record (state : TrustState) (host algorithm : String) (fingerprint : Fingerprint)
    (attempt : Attempt) : Except ErrorValue Unit × TrustState :=
  state.replace (state.store.entries ++ [⟨host, algorithm, fingerprint⟩]) attempt

/-- The state without the entries of a host. -/
def retainOthers (state : TrustState) (host : String) : TrustState :=
  { state with store.entries := state.store.entries.filter (·.host ≠ host) }

/-- Records a fingerprint, refusing to replace another. -/
def pinFingerprint (state : TrustState) (host algorithm : String) (fingerprint : Fingerprint)
    (attempt : Attempt) : Except ErrorValue Unit × TrustState :=
  match state.store.fingerprint host with
  | some recorded =>
    if recorded = fingerprint then (.ok (), state)
    else (.error (hostKeyChanged host recorded fingerprint), state)
  | none => state.record host algorithm fingerprint attempt

/-- Replaces whatever is recorded for a host. -/
def repinFingerprint (state : TrustState) (host algorithm : String) (fingerprint : Fingerprint)
    (attempt : Attempt) : Except ErrorValue Unit × TrustState :=
  (state.retainOthers host).record host algorithm fingerprint attempt

/-- Forgets a host. -/
def forget (state : TrustState) (host : String) (attempt : Attempt) :
    Except ErrorValue Unit × TrustState :=
  state.replace (state.store.entries.filter (·.host ≠ host)) attempt

variable (hash : KeyHash)

/-- Records a key, refusing to replace another. -/
def pin (state : TrustState) (host : String) (key : HostKey) (attempt : Attempt) :
    Except ErrorValue Unit × TrustState :=
  state.pinFingerprint host key.algorithm (key.fingerprint hash) attempt

/-- Replaces whatever is recorded for a host with a key. -/
def repin (state : TrustState) (host : String) (key : HostKey) (attempt : Attempt) :
    Except ErrorValue Unit × TrustState :=
  state.repinFingerprint host key.algorithm (key.fingerprint hash) attempt

/-- Checks a key against what is recorded, recording it if nothing was. -/
def verify (state : TrustState) (host : String) (key : HostKey) (attempt : Attempt) :
    Except ErrorValue TrustDecision × TrustState :=
  let presented := key.fingerprint hash
  match state.store.fingerprint host with
  | some recorded =>
    if recorded = presented then (.ok .pinned, state)
    else (.error (hostKeyChanged host recorded presented), state)
  | none =>
    let recorded := state.record host key.algorithm presented attempt
    (recorded.1.map fun _ => .newlyPinned, recorded.2)

/-- What a policy makes of the key a transport authenticated. -/
def decide (state : TrustState) (policy : TrustPolicy) (host : String) (key : Option HostKey)
    (attempt : Attempt) : Except ErrorValue TrustDecision × TrustState :=
  match policy, key with
  | .unauthenticated, none => (.ok .unauthenticated, state)
  | .unauthenticated, some key => state.verify hash host key attempt
  | .required, none | .pinned, none =>
    (.error
      { code := .other "safety.policy_denied"
        message := "the transport to " ++ host ++
          " authenticates nobody, and this link requires a host key" }, state)
  | .required, some key => state.verify hash host key attempt
  | .pinned, some key =>
    let presented := key.fingerprint hash
    match state.store.fingerprint host with
    | some recorded =>
      if recorded = presented then (.ok .pinned, state)
      else (.error (hostKeyChanged host recorded presented), state)
    | none =>
      (.error
        { code := .other "safety.policy_denied"
          message := host ++
            " is not in the trust store, and this link only uses pinned hosts" }, state)

end TrustState

/-! ### Calls -/

/-- A call of the store. -/
inductive TrustCall
  | verify (host : String) (key : HostKey)
  | pin (host : String) (key : HostKey)
  | repin (host : String) (key : HostKey)
  | pinFingerprint (host algorithm : String) (fingerprint : Fingerprint)
  | repinFingerprint (host algorithm : String) (fingerprint : Fingerprint)
  | forget (host : String)
  | decide (policy : TrustPolicy) (host : String) (key : Option HostKey)

/-- The error of an answer, where it is one. -/
def refusal {α : Type} : Except ErrorValue α → Option ErrorValue
  | .ok _ => none
  | .error error => some error

namespace TrustCall

variable (hash : KeyHash)

/-- Makes a call: the error it returned, where it returned one, and the state after it. -/
def perform (state : TrustState) (call : TrustCall) (attempt : Attempt) :
    Option ErrorValue × TrustState :=
  match call with
  | verify host key =>
    (refusal (state.verify hash host key attempt).1, (state.verify hash host key attempt).2)
  | pin host key =>
    (refusal (state.pin hash host key attempt).1, (state.pin hash host key attempt).2)
  | repin host key =>
    (refusal (state.repin hash host key attempt).1, (state.repin hash host key attempt).2)
  | pinFingerprint host algorithm fingerprint =>
    (refusal (state.pinFingerprint host algorithm fingerprint attempt).1,
      (state.pinFingerprint host algorithm fingerprint attempt).2)
  | repinFingerprint host algorithm fingerprint =>
    (refusal (state.repinFingerprint host algorithm fingerprint attempt).1,
      (state.repinFingerprint host algorithm fingerprint attempt).2)
  | forget host =>
    (refusal (state.forget host attempt).1, (state.forget host attempt).2)
  | decide policy host key =>
    (refusal (state.decide hash policy host key attempt).1,
      (state.decide hash policy host key attempt).2)

/-- The host a call is about. -/
def host : TrustCall → String
  | verify host _ | pin host _ | repin host _ | pinFingerprint host _ _
  | repinFingerprint host _ _ | forget host | decide _ host _ => host

/-- The entry a call brings. -/
def entry : TrustCall → Option TrustEntry
  | verify host key | pin host key | repin host key | decide _ host (some key) =>
    some ⟨host, key.algorithm, key.fingerprint hash⟩
  | pinFingerprint host algorithm fingerprint | repinFingerprint host algorithm fingerprint =>
    some ⟨host, algorithm, fingerprint⟩
  | forget _ | decide _ _ none => none

/-- Whether a call is meant to change what is recorded for its host. -/
def isDeliberate : TrustCall → Bool
  | repin _ _ | repinFingerprint _ _ _ | forget _ => true
  | _ => false

/-- Whether the names a call brings can stand in the file. -/
def WellNamed (call : TrustCall) : Prop :=
  IsName call.host ∧ ∀ entry ∈ call.entry hash, IsName entry.algorithm

/-- Whether a call changes the pins and writes the file. -/
def writes (store : TrustStore) : TrustCall → Bool
  | verify host _ | pin host _ | pinFingerprint host _ _
  | decide .required host (some _) | decide .unauthenticated host (some _) =>
    (store.fingerprint host).isNone
  | repin _ _ | repinFingerprint _ _ _ | forget _ => true
  | decide _ _ _ => false

/-- Whether a call would leave the pins as they are: it forgets a host that is not recorded, or
records again what is recorded last. -/
def Idle (store : TrustStore) (call : TrustCall) : Prop :=
  call.isDeliberate = true ∧
    (call.entry hash).elim (store.fingerprint call.host = none)
      (fun entry => store.entries.getLast? = some entry)

/-- The pins a writing call puts in place of those in memory. -/
def rewritten (store : TrustStore) (call : TrustCall) : List TrustEntry :=
  (if call.isDeliberate then store.entries.filter (·.host ≠ call.host) else store.entries) ++
    (call.entry hash).toList

variable {hash} {state : TrustState} {call : TrustCall} {attempt : Attempt}

theorem repinFingerprint_eq (state : TrustState) (host algorithm : String)
    (fingerprint : Fingerprint) (attempt : Attempt) :
    state.repinFingerprint host algorithm fingerprint attempt =
      state.replace (state.store.entries.filter (·.host ≠ host) ++
        [⟨host, algorithm, fingerprint⟩]) attempt := by
  unfold TrustState.repinFingerprint TrustState.record TrustState.replace TrustState.retainOthers
  cases state.store.path <;> rfl

theorem pinFingerprint_eq (state : TrustState) (host algorithm : String)
    (fingerprint : Fingerprint) (attempt : Attempt) :
    state.pinFingerprint host algorithm fingerprint attempt =
      if (state.store.fingerprint host).isNone then
        state.record host algorithm fingerprint attempt
      else
        ((state.pinFingerprint host algorithm fingerprint attempt).1, state) := by
  cases hrecorded : state.store.fingerprint host with
  | none => simp [TrustState.pinFingerprint, hrecorded]
  | some recorded =>
    simp only [TrustState.pinFingerprint, hrecorded]
    split_ifs <;> simp_all

theorem verify_eq (state : TrustState) (host : String) (key : HostKey) (attempt : Attempt) :
    (refusal (state.verify hash host key attempt).1, (state.verify hash host key attempt).2) =
      (refusal (state.pin hash host key attempt).1, (state.pin hash host key attempt).2) := by
  cases hrecorded : state.store.fingerprint host with
  | none =>
    simp only [TrustState.verify, TrustState.pin, TrustState.pinFingerprint, hrecorded]
    cases (state.record host key.algorithm (key.fingerprint hash) attempt).1 <;> rfl
  | some recorded =>
    simp only [TrustState.verify, TrustState.pin, TrustState.pinFingerprint, hrecorded]
    split_ifs <;> rfl

/-- **What a call does.** A call that does not write leaves the state as it is; a call that writes
replaces the pins. -/
theorem perform_eq (state : TrustState) (call : TrustCall) (attempt : Attempt) :
    (call.writes state.store = false ∧ (call.perform hash state attempt).2 = state) ∨
    (call.writes state.store = true ∧ call.perform hash state attempt =
      (refusal (state.replace (call.rewritten hash state.store) attempt).1,
        (state.replace (call.rewritten hash state.store) attempt).2)) := by
  have hpin (host algorithm : String) (fingerprint : Fingerprint) :
      ((state.store.fingerprint host).isNone = false ∧
        (state.pinFingerprint host algorithm fingerprint attempt).2 = state) ∨
      ((state.store.fingerprint host).isNone = true ∧
        state.pinFingerprint host algorithm fingerprint attempt =
          state.replace (state.store.entries ++ [⟨host, algorithm, fingerprint⟩]) attempt) := by
    rw [pinFingerprint_eq]
    cases hrecorded : (state.store.fingerprint host).isNone with
    | false => exact .inl ⟨rfl, rfl⟩
    | true => exact .inr ⟨rfl, rfl⟩
  have hverify (host : String) (key : HostKey) :
      ((state.store.fingerprint host).isNone = false ∧
        (state.verify hash host key attempt).2 = state) ∨
      ((state.store.fingerprint host).isNone = true ∧
        (refusal (state.verify hash host key attempt).1,
          (state.verify hash host key attempt).2) =
        (refusal (state.replace (state.store.entries ++
            [⟨host, key.algorithm, key.fingerprint hash⟩]) attempt).1,
          (state.replace (state.store.entries ++
            [⟨host, key.algorithm, key.fingerprint hash⟩]) attempt).2)) := by
    have heq := @verify_eq hash state host key attempt
    rcases hpin host key.algorithm (key.fingerprint hash) with ⟨hnone, hstate⟩ | ⟨hnone, hreplace⟩
    · exact .inl ⟨hnone, (Prod.mk.inj heq).2.trans hstate⟩
    · exact .inr ⟨hnone, heq.trans (by rw [TrustState.pin, hreplace])⟩
  cases call with
  | verify host key => exact hverify host key
  | pin host key =>
    rcases hpin host key.algorithm (key.fingerprint hash) with ⟨hnone, hstate⟩ | ⟨hnone, hreplace⟩
    · exact .inl ⟨hnone, hstate⟩
    · exact .inr ⟨hnone, by simp only [perform, TrustState.pin, hreplace]; rfl⟩
  | repin host key =>
    exact .inr ⟨rfl, by simp only [perform, TrustState.repin, repinFingerprint_eq]; rfl⟩
  | pinFingerprint host algorithm fingerprint =>
    rcases hpin host algorithm fingerprint with ⟨hnone, hstate⟩ | ⟨hnone, hreplace⟩
    · exact .inl ⟨hnone, hstate⟩
    · exact .inr ⟨hnone, by simp only [perform, hreplace]; rfl⟩
  | repinFingerprint host algorithm fingerprint =>
    exact .inr ⟨rfl, by simp only [perform, repinFingerprint_eq]; rfl⟩
  | forget host =>
    refine .inr ⟨rfl, ?_⟩
    simp only [perform, TrustState.forget, rewritten, isDeliberate, if_true, entry,
      TrustCall.host, toList_none, append_nil]
    rfl
  | decide policy host key =>
    match policy, key with
    | .unauthenticated, some key | .required, some key => exact hverify host key
    | .unauthenticated, none | .required, none | .pinned, none => exact .inl ⟨rfl, rfl⟩
    | .pinned, some key =>
      refine .inl ⟨rfl, ?_⟩
      cases hrecorded : state.store.fingerprint host with
      | none => simp [perform, TrustState.decide, hrecorded]
      | some recorded =>
        simp only [perform, TrustState.decide, hrecorded]
        split_ifs <;> rfl

end TrustCall

/-! ### Pins change only deliberately -/

/-- A state whose pins are those of its file, read as it stands, or that has no file. -/
def Opened (state : TrustState) : Prop :=
  state.store = TrustStore.inMemory ∨
    ∃ path, TrustStore.ofFile state.files path none = .ok state.store

/-- A state in which no host has two entries and reading the file again gives what is in memory. -/
structure Consistent (state : TrustState) : Prop where
  hosts_nodup : (state.store.entries.map (·.host)).Nodup
  reopened : ∀ path, state.store.path = some path →
    ∃ store, TrustStore.ofFile state.files path none = .ok store ∧
      ∀ host, store.fingerprint host = state.store.fingerprint host

/-- A call that changes what is recorded only where it is meant to, and that changes nothing where
it returns an error. -/
structure Deliberate (hash : KeyHash) (state : TrustState) (call : TrustCall)
    (attempt : Attempt) : Prop where
  changed : ∀ host recorded, state.store.fingerprint host = some recorded →
    (call.perform hash state attempt).2.store.fingerprint host ≠ some recorded →
    call.isDeliberate = true ∧ call.host = host ∧ (call.perform hash state attempt).1 = none
  refused : (call.perform hash state attempt).1.isSome = true →
    (call.perform hash state attempt).2.store.entries = state.store.entries ∧
    ∀ path, state.store.path = some path →
      (call.perform hash state attempt).2.files path = state.files path

/-- The store as a transition system: a call is made and its write is answered. -/
def trustSystem (hash : KeyHash) : Transition TrustState (TrustCall × Attempt) where
  next state label := some (label.1.perform hash state label.2).2

/-- Along every run from an initial state whose calls are all allowed, the store is consistent and
every call is deliberate. -/
def PinsDeliberate (hash : KeyHash) (initial : TrustState → Prop)
    (allowed : TrustState → TrustCall × Attempt → Prop) : Prop :=
  ∀ state, (trustSystem hash).Reached initial allowed state →
    Consistent state ∧ ∀ call attempt, allowed state (call, attempt) →
      Deliberate hash state call attempt

/-- No write fails under a call that changes the pins. A call that would leave them as they are may
fail to write them, where the file written first is not the store's own. -/
def Settled (hash : KeyHash) (state : TrustState) (call : TrustCall) (attempt : Attempt) :
    Prop :=
  ∀ path, state.store.path = some path → call.writes state.store = true →
    attempt.fails path = true → call.Idle hash state.store ∧ path.temporary ≠ path

/-- What every call that does not fail keeps. -/
structure StoreInvariant (state : TrustState) : Prop where
  hosts_nodup : (state.store.entries.map (·.host)).Nodup
  written : ∀ entry ∈ state.store.entries, entry.Written
  reopened : ∀ path, state.store.path = some path →
    TrustStore.ofFile state.files path none = .ok state.store

section Invariant

variable {hash : KeyHash} {state : TrustState} {call : TrustCall} {attempt : Attempt}

theorem fingerprint_eq_none_iff {store : TrustStore} {host : String} :
    store.fingerprint host = none ↔ ∀ entry ∈ store.entries, entry.host ≠ host := by
  simp [TrustStore.fingerprint]

theorem host_of_mem_entry {entry : TrustEntry} (h : entry ∈ call.entry hash) :
    entry.host = call.host := by
  match call with
  | .verify _ _ | .pin _ _ | .repin _ _ | .decide _ _ (some _) | .pinFingerprint _ _ _
  | .repinFingerprint _ _ _ => exact (some.inj h) ▸ rfl
  | .forget _ | .decide _ _ none => cases h

theorem fingerprint_of_writes (h : call.writes state.store = true)
    (hdeliberate : call.isDeliberate = false) : state.store.fingerprint call.host = none := by
  match call with
  | .verify _ _ | .pin _ _ | .pinFingerprint _ _ _ | .decide .required _ (some _)
  | .decide .unauthenticated _ (some _) => exact isNone_iff_eq_none.mp h
  | .repin _ _ | .repinFingerprint _ _ _ | .forget _ => cases hdeliberate
  | .decide .pinned _ _ | .decide .required _ none | .decide .unauthenticated _ none => cases h

/-- The pins a writing call keeps are among those there were, and none is its host's. -/
theorem rewritten_eq (h : call.writes state.store = true) :
    ∃ kept, call.rewritten hash state.store = kept ++ (call.entry hash).toList ∧
      kept.Sublist state.store.entries ∧ (∀ entry ∈ kept, entry.host ≠ call.host) ∧
      ∀ host, host ≠ call.host →
        kept.find? (·.host = host) = state.store.entries.find? (·.host = host) := by
  cases hdeliberate : call.isDeliberate with
  | true =>
    refine ⟨state.store.entries.filter (·.host ≠ call.host), by simp [TrustCall.rewritten,
      hdeliberate], filter_sublist, by simp, fun host hhost => ?_⟩
    rw [find?_filter]
    congr 1
    funext entry
    by_cases hentry : entry.host = host
    · simp [hentry, hhost]
    · simp [hentry]
  | false =>
    refine ⟨state.store.entries, by simp [TrustCall.rewritten, hdeliberate], Sublist.refl _,
      ?_, fun _ _ => rfl⟩
    exact fingerprint_eq_none_iff.mp (fingerprint_of_writes h hdeliberate)

theorem nodup_rewritten (hnodup : (state.store.entries.map (·.host)).Nodup)
    (hwrites : call.writes state.store = true) :
    ((call.rewritten hash state.store).map (·.host)).Nodup := by
  obtain ⟨kept, hrewritten, hsublist, hkept, -⟩ := @rewritten_eq hash _ _ hwrites
  rw [hrewritten, map_append, nodup_append]
  refine ⟨hnodup.sublist (hsublist.map _), ?_, ?_⟩
  · cases call.entry hash <;> simp
  · intro host hhost other hother
    obtain ⟨entry, hentry, rfl⟩ := mem_map.mp hhost
    obtain ⟨brought, hbrought, rfl⟩ := mem_map.mp hother
    rw [host_of_mem_entry (mem_toList.mp hbrought)]
    exact hkept entry hentry

theorem written_rewritten (hwritten : ∀ entry ∈ state.store.entries, entry.Written)
    (hnamed : call.WellNamed hash) (hwrites : call.writes state.store = true) :
    ∀ entry ∈ call.rewritten hash state.store, entry.Written := by
  obtain ⟨kept, hrewritten, hsublist, -, -⟩ := @rewritten_eq hash _ _ hwrites
  intro entry hentry
  rw [hrewritten, mem_append, mem_toList] at hentry
  rcases hentry with hentry | hentry
  · exact hwritten entry (hsublist.subset hentry)
  · have halgorithm := hnamed.2 entry hentry
    exact ⟨host_of_mem_entry hentry ▸ hnamed.1, halgorithm.1, halgorithm.2.1⟩

theorem fingerprint_rewritten (hwrites : call.writes state.store = true) {host : String}
    (hhost : host ≠ call.host) (path : Option StorePath) :
    TrustStore.fingerprint ⟨call.rewritten hash state.store, path⟩ host =
      state.store.fingerprint host := by
  obtain ⟨kept, hrewritten, -, -, hfind⟩ := @rewritten_eq hash _ _ hwrites
  have hbrought : (call.entry hash).toList.find? (·.host = host) = none := by
    rw [find?_eq_none]
    intro entry hentry
    rw [host_of_mem_entry (mem_toList.mp hentry)]
    simpa using Ne.symm hhost
  simp only [TrustStore.fingerprint]
  rw [hrewritten, find?_append, hbrought, or_none, hfind host hhost]

/-- What an idle call leaves in memory is what was there. -/
theorem rewritten_of_idle (hnodup : (state.store.entries.map (·.host)).Nodup)
    (hidle : call.Idle hash state.store) :
    call.rewritten hash state.store = state.store.entries := by
  obtain ⟨hdeliberate, hlast⟩ := hidle
  rw [TrustCall.rewritten, if_pos hdeliberate]
  cases hentry : call.entry hash with
  | none =>
    rw [hentry] at hlast
    have hhosts := fingerprint_eq_none_iff.mp hlast
    rw [toList_none, append_nil]
    exact filter_eq_self.mpr fun entry hmem => by simpa using hhosts entry hmem
  | some entry =>
    rw [hentry] at hlast
    obtain ⟨before, hbefore⟩ := getLast?_eq_some_iff.mp hlast
    have hhost : entry.host = call.host := host_of_mem_entry hentry
    rw [hbefore, map_append, nodup_append] at hnodup
    have hkept : before.filter (·.host ≠ call.host) = before := by
      refine filter_eq_self.mpr fun other hother => ?_
      have := hnodup.2.2 _ (mem_map_of_mem hother) entry.host (by simp)
      simpa [hhost] using this
    rw [hbefore, filter_append, hkept]
    simp [hhost]

theorem store_replace (state : TrustState) (entries : List TrustEntry) (attempt : Attempt) :
    (state.replace entries attempt).2.store = ⟨entries, state.store.path⟩ := by
  unfold TrustState.replace
  cases hpath : state.store.path <;> simp [hpath]

variable {path : StorePath}

theorem ofFile_of_replace {entries : List TrustEntry} (hpath : state.store.path = some path)
    (hfails : attempt.fails path = false) (hwritten : ∀ entry ∈ entries, entry.Written) :
    refusal (state.replace entries attempt).1 = none ∧
      TrustStore.ofFile (state.replace entries attempt).2.files path none =
        .ok ⟨entries, some path⟩ := by
  obtain ⟨files, hpersist, hfile⟩ :=
    persist_of_not_fails state.files (render entries) hfails
  have hreplace : state.replace entries attempt =
      (.ok (), { store := ⟨entries, some path⟩, files := files }) := by
    simp [TrustState.replace, hpath, hpersist]
  rw [hreplace]
  have hread : readToString files path none = .ok (render entries) := by
    simp only [readToString, hfile]
  refine ⟨rfl, ?_⟩
  rw [TrustStore.ofFile, hread]
  exact congrArg (Except.map _) (parse_render hwritten _)

theorem files_of_replace (entries : List TrustEntry) (hpath : state.store.path = some path)
    (hfails : attempt.fails path = true) (htemporary : path.temporary ≠ path) :
    (state.replace entries attempt).2.files path = state.files path := by
  obtain ⟨error, files, hpersist, hfiles⟩ :=
    persist_of_fails state.files (render entries) hfails
  have hreplace : (state.replace entries attempt).2.files = files := by
    simp [TrustState.replace, hpath, hpersist]
  rw [hreplace]
  exact hfiles path htemporary.symm

/-- A store that was opened meets the invariant where its file names no host twice. -/
theorem StoreInvariant.of_opened (hopened : Opened state)
    (hnodup : (state.store.entries.map (·.host)).Nodup) : StoreInvariant state := by
  rcases hopened with hmemory | ⟨path, hfile⟩
  · refine ⟨hnodup, ?_, ?_⟩ <;> simp [hmemory, TrustStore.inMemory]
  cases hread : state.files path with
  | none =>
    have hstore : state.store = ⟨[], some path⟩ := by
      simpa [TrustStore.ofFile, readToString, hread] using hfile.symm
    refine ⟨hnodup, by simp [hstore], fun other hother => ?_⟩
    rw [hstore, Option.some.injEq] at hother
    exact hother ▸ hfile
  | some text =>
    simp only [TrustStore.ofFile, readToString, hread] at hfile
    cases hparse : parse text path.display with
    | error error => simp [hparse, Except.map] at hfile
    | ok entries =>
      have hstore : state.store = ⟨entries, some path⟩ := by
        simpa [hparse, Except.map] using hfile.symm
      refine ⟨hnodup, ?_, fun other hother => ?_⟩
      · rw [hstore]
        exact written_of_parseLines hparse
      · rw [hstore, Option.some.injEq] at hother
        subst hother
        simp [TrustStore.ofFile, readToString, hread, hparse, Except.map, hstore]

/-- A settled writing call either succeeds, and the file gives the new pins back, or leaves the pins
and the file as they were. -/
theorem perform_of_settled (hinv : StoreInvariant state) (hnamed : call.WellNamed hash)
    (hsettled : Settled hash state call attempt) (hwrites : call.writes state.store = true) :
    ((call.perform hash state attempt).1 = none ∧
      ∀ path, state.store.path = some path →
        TrustStore.ofFile (call.perform hash state attempt).2.files path none =
          .ok ⟨call.rewritten hash state.store, some path⟩) ∨
    (call.rewritten hash state.store = state.store.entries ∧
      ∀ path, state.store.path = some path →
        (call.perform hash state attempt).2.files path = state.files path) := by
  rcases @TrustCall.perform_eq hash state call attempt with ⟨hnot, -⟩ | ⟨-, hperform⟩
  · rw [hnot] at hwrites
    cases hwrites
  rw [hperform]
  cases hpath : state.store.path with
  | none => exact .inl ⟨by simp [TrustState.replace, hpath, refusal], fun path h => by cases h⟩
  | some path =>
    cases hfails : attempt.fails path with
    | false =>
      have hreplace := ofFile_of_replace hpath hfails
        (written_rewritten hinv.written hnamed hwrites)
      refine .inl ⟨hreplace.1, fun other hother => ?_⟩
      rw [← Option.some.inj hother]
      exact hreplace.2
    | true =>
      obtain ⟨hidle, htemporary⟩ := hsettled path hpath hwrites hfails
      refine .inr ⟨rewritten_of_idle hinv.hosts_nodup hidle, fun other hother => ?_⟩
      rw [← Option.some.inj hother]
      exact files_of_replace _ hpath hfails htemporary

theorem store_of_writes (hwrites : call.writes state.store = true) :
    (call.perform hash state attempt).2.store =
      ⟨call.rewritten hash state.store, state.store.path⟩ := by
  rcases @TrustCall.perform_eq hash state call attempt with ⟨hnot, -⟩ | ⟨-, hperform⟩
  · rw [hnot] at hwrites
    cases hwrites
  · rw [hperform]
    exact store_replace _ _ _

theorem ofFile_congr {files files' : Files} (h : files' path = files path) :
    TrustStore.ofFile files' path none = TrustStore.ofFile files path none := by
  simp only [TrustStore.ofFile, readToString, h]

/-- **One call.** A settled call keeps the invariant. -/
theorem StoreInvariant.perform (hinv : StoreInvariant state) (hnamed : call.WellNamed hash)
    (hsettled : Settled hash state call attempt) :
    StoreInvariant (call.perform hash state attempt).2 := by
  rcases @TrustCall.perform_eq hash state call attempt with ⟨-, hstate⟩ | ⟨hwrites, -⟩
  · rw [hstate]
    exact hinv
  have hstore := @store_of_writes hash _ _ attempt hwrites
  refine ⟨?_, ?_, fun path hpath => ?_⟩
  · rw [hstore]
    exact nodup_rewritten hinv.hosts_nodup hwrites
  · rw [hstore]
    exact written_rewritten hinv.written hnamed hwrites
  · rw [hstore] at hpath ⊢
    have hpath : state.store.path = some path := hpath
    rcases perform_of_settled hinv hnamed hsettled hwrites with ⟨-, hfile⟩ | ⟨hsame, hfiles⟩
    · rw [hfile path hpath, hpath]
    · rw [ofFile_congr (hfiles path hpath), hsame]
      exact hinv.reopened path hpath

/-- **One call.** A settled call changes pins only deliberately. -/
theorem StoreInvariant.deliberate (hinv : StoreInvariant state) (hnamed : call.WellNamed hash)
    (hsettled : Settled hash state call attempt) : Deliberate hash state call attempt := by
  rcases @TrustCall.perform_eq hash state call attempt with ⟨-, hstate⟩ | ⟨hwrites, -⟩
  · refine ⟨fun host recorded hrecorded hchanged => ?_, fun _ => ?_⟩
    · rw [hstate] at hchanged
      exact absurd hrecorded hchanged
    · rw [hstate]
      exact ⟨rfl, fun _ _ => rfl⟩
  have hstore := @store_of_writes hash _ _ attempt hwrites
  have hsettled := perform_of_settled hinv hnamed hsettled hwrites
  refine ⟨fun host recorded hrecorded hchanged => ?_, fun hrefused => ?_⟩
  · rw [hstore] at hchanged
    by_cases hhost : host = call.host
    · subst hhost
      cases hdeliberate : call.isDeliberate with
      | false =>
        rw [fingerprint_of_writes hwrites hdeliberate] at hrecorded
        cases hrecorded
      | true =>
        rcases hsettled with ⟨hok, -⟩ | ⟨hsame, -⟩
        · exact ⟨rfl, rfl, hok⟩
        · rw [hsame] at hchanged
          exact absurd hrecorded hchanged
    · rw [fingerprint_rewritten hwrites hhost] at hchanged
      exact absurd hrecorded hchanged
  · rcases hsettled with ⟨hok, -⟩ | ⟨hsame, hfiles⟩
    · rw [hok] at hrefused
      cases hrefused
    · rw [hstore]
      exact ⟨hsame, hfiles⟩

end Invariant

/-- **Pins change only deliberately** as long as no write fails under a call that changes them: from
a store whose file names no host twice, along every run of well-named settled calls, what is
recorded for a host changes only through a call that is meant to change it and succeeds, a call that
returns an error changes neither memory nor file, no host has two entries, and reading the file
again gives what is in memory. -/
theorem pinsDeliberate_of_settled (hash : KeyHash) :
    PinsDeliberate hash
      (fun state => Opened state ∧ (state.store.entries.map (·.host)).Nodup)
      (fun state label => label.1.WellNamed hash ∧ Settled hash state label.1 label.2) := by
  intro state hreached
  have hinv : StoreInvariant state := by
    refine hreached.invariant ?_ ?_
    · rintro state ⟨hopened, hnodup⟩
      exact StoreInvariant.of_opened hopened hnodup
    · rintro state next ⟨call, attempt⟩ hinv ⟨hnamed, hsettled⟩ hnext
      obtain rfl := some.inj hnext
      exact hinv.perform hnamed hsettled
  refine ⟨⟨hinv.hosts_nodup, fun path hpath => ?_⟩, fun call attempt hallowed => ?_⟩
  · exact ⟨_, hinv.reopened path hpath, fun _ => rfl⟩
  · exact hinv.deliberate hallowed.1 hallowed.2

/-- The fingerprint of thirty-two times one byte. -/
def repeated (byte : UInt8) : Fingerprint :=
  ⟨Vector.replicate 32 byte⟩

/-- A hash under which every key has one fingerprint. -/
def oneHash : KeyHash :=
  fun _ => Vector.replicate 32 0

/-- A store whose file is not there yet. -/
def unwritten : TrustState :=
  ⟨⟨[], some ⟨"/home/case/.config/ono", "trust", none⟩⟩, fun _ => none⟩

theorem unwritten_opened : Opened unwritten :=
  .inr ⟨⟨"/home/case/.config/ono", "trust", none⟩, rfl⟩

/-- An attempt in which the file cannot be put in place. -/
def notPlaced : Attempt :=
  { Attempt.successful with rename := some ⟨.permissionDenied, "denied"⟩ }

theorem wellNamed_db (fingerprint : Fingerprint) :
    (TrustCall.pinFingerprint "db" "ed25519" fingerprint).WellNamed oneHash ∧
      (TrustCall.repinFingerprint "db" "ed25519" fingerprint).WellNamed oneHash := by
  have hhost : IsName "db" := by decide +kernel
  have halgorithm : IsName "ed25519" := by decide +kernel
  exact ⟨⟨hhost, fun entry hentry => some.inj hentry ▸ halgorithm⟩,
    ⟨hhost, fun entry hentry => some.inj hentry ▸ halgorithm⟩⟩

/-- A host is pinned and re-pinned, and another one that is not recorded is forgotten though the
file cannot be written. -/
theorem pinsDeliberate_of_settled_repinned : ∃ state,
    state.store.entries = [⟨"db", "ed25519", repeated 1⟩] ∧ Consistent state ∧
      Deliberate oneHash state (.forget "web") notPlaced := by
  have hwritten : ∀ state call, Settled oneHash state call .successful := by
    intro state call path _ _ hfails
    simp [Attempt.fails, Attempt.successful] at hfails
  have hsafe := pinsDeliberate_of_settled oneHash _
    (.step (.repinFingerprint "db" "ed25519" (repeated 1), .successful)
      (.step (.pinFingerprint "db" "ed25519" (repeated 0), .successful)
        (.start ⟨unwritten_opened, List.nodup_nil⟩) ⟨(wellNamed_db _).1, hwritten _ _⟩ rfl)
      ⟨(wellNamed_db _).2, hwritten _ _⟩ rfl)
  refine ⟨_, rfl, hsafe.1, hsafe.2 _ _ ⟨⟨by decide +kernel, nofun⟩, fun path hpath _ _ => ?_⟩⟩
  obtain rfl := some.inj hpath
  exact ⟨⟨rfl, rfl⟩, by decide⟩

/-- A re-pin whose file cannot be put in place returns an error and re-trusts the host all the
same. -/
theorem not_pinsDeliberate_repin :
    ¬ ∀ hash : KeyHash,
      PinsDeliberate hash
        (fun state => Opened state ∧ (state.store.entries.map (·.host)).Nodup)
        (fun _ label => label.1.WellNamed hash) := by
  intro h
  have hpinned := (h oneHash _ (.step (.pinFingerprint "db" "ed25519" (repeated 0), .successful)
    (.start ⟨unwritten_opened, nodup_nil⟩) (wellNamed_db _).1 rfl)).2
      (.repinFingerprint "db" "ed25519" (repeated 1)) notPlaced (wellNamed_db _).2
  have hentries : [TrustEntry.mk "db" "ed25519" (repeated 1)] =
      [TrustEntry.mk "db" "ed25519" (repeated 0)] := (hpinned.refused rfl).1
  have hfingerprint : repeated 1 = repeated 0 := (TrustEntry.mk.inj (cons.inj hentries).1).2.2
  exact absurd hfingerprint (by decide)

end OnoSendai.Link
