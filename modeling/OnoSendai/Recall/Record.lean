import OnoSendai.Value.DecimalText

/-!
# Recording commands

The shell remembers the commands it ran (`ono_history::store`, `ono_history::policy`): the policy
decides what is remembered at all, replaces what its patterns match, and the entry keeps the text
together with where it ran, how it ended and what its adapters ran. The patterns are regular
expressions of a third-party engine; the model takes their matches as given.
-/

namespace OnoSendai.Recall

open List

/-! ### The policy -/

/-- One match of a pattern: where each of its groups matched, the whole match first. -/
abbrev Captures : Type :=
  List (Option (ℕ × ℕ))

/-- A compiled pattern: its successive matches in a text, by positions in the text. -/
abbrev Pattern : Type :=
  List Char → List Captures

/-- The rules the shell applies before a command becomes an entry. -/
structure Policy where
  maxEntries : ℕ
  maxEntries_pos : 0 < maxEntries
  collapseRepeats : Bool
  hideLeadingSpace : Bool
  redactions : List Pattern

/-- What appears in place of a redacted value. -/
def redacted : List Char :=
  "<redacted>".toList

/-- What a match redacts: its last group that took part, or all of it. -/
def Captures.secret (captures : Captures) : Option (ℕ × ℕ) := do
  let whole ← captures.head?.join
  return (captures.tail.reverse.findSome? id).getD whole

/-- A text in which what each match redacts is replaced. -/
def redactMatches (text : List Char) (found : List Captures) : List Char :=
  let (result, lastEnd) := found.foldl
    (fun (result, lastEnd) captures =>
      match captures.secret with
      | none => (result, lastEnd)
      | some (start, stop) =>
        (result ++ (text.take start).drop lastEnd ++ redacted, stop))
    ([], 0)
  if lastEnd = 0 then text else result ++ text.drop lastEnd

namespace Policy

variable (policy : Policy)

/-- Whether a command should be remembered at all. -/
def shouldRecord (command : List Char) : Bool :=
  !(trim command).isEmpty && !(policy.hideLeadingSpace && command.head? == some ' ')

/-- Whether a repeat of `previous` should be collapsed. -/
def collapses (previous : Option (List Char)) (command : List Char) : Bool :=
  policy.collapseRepeats && previous == some command

/-- The text that may be stored, with every configured secret replaced. -/
def redact (command : List Char) : List Char :=
  policy.redactions.foldl (fun text pattern => redactMatches text (pattern text)) command

end Policy

/-! ### Entries -/

/-- How a command ended, after how many nanoseconds, and what shaped it. -/
structure Outcome where
  status : UInt8
  duration : ℕ
  adapters : List (List Char)
  plans : List (List Char)

/-- One command, and what happened when it ran. -/
structure Entry where
  id : String
  at' : ℤ
  command : List Char
  cwd : ByteArray
  status : Option UInt8
  durationMs : Option ℕ
  session : String
  adapters : List (List Char)
  plans : List (List Char)

/-- What the identity source and the clock answer while a command is recorded. -/
structure Moment where
  id : String
  now : ℤ

/-- An entry, made at a moment. -/
def Entry.new (moment : Moment) (session : String) (command : List Char) (cwd : ByteArray)
    (outcome : Option Outcome) : Entry where
  id := moment.id
  at' := moment.now
  command := command
  cwd := cwd
  status := outcome.map (·.status)
  durationMs := outcome.map fun outcome => min (outcome.duration / 1000000) (2 ^ 64 - 1)
  session := session
  adapters := (outcome.map (·.adapters)).getD []
  plans := (outcome.map (·.plans)).getD []

/-- What the shell remembers, and how much of it the file holds. -/
structure History where
  policy : Policy
  entries : List Entry
  session : String
  persisted : ℕ
  stale : Bool

namespace History

variable (history : History)

/-- The history after its oldest entries beyond the limit are dropped. -/
def trimmed : History :=
  if history.policy.maxEntries < history.entries.length then
    let excess := history.entries.length - history.policy.maxEntries
    { history with
      entries := history.entries.drop excess
      persisted := history.persisted - excess
      stale := true }
  else history

/-- Records a command: the identity of its entry, unless the policy declines it. -/
def record (moment : Moment) (command : List Char) (cwd : ByteArray) (outcome : Outcome) :
    Option String × History :=
  if !history.policy.shouldRecord command then (none, history)
  else
    let text := history.policy.redact command
    if history.policy.collapses (history.entries.getLast?.map (·.command)) text then
      (none, history)
    else
      let entry := Entry.new moment history.session text cwd (some outcome)
      (some moment.id, { history with entries := history.entries ++ [entry] }.trimmed)

end History

/-! ### Two runs -/

/-- Entries that differ in nothing but identity and time. -/
def AlikeBut (one other : Entry) : Prop :=
  { one with id := other.id, at' := other.at' } = other

theorem AlikeBut.refl (entry : Entry) : AlikeBut entry entry :=
  rfl

/-- Two recordings made the same decision and left entries that differ in nothing but identity
and time. -/
def SameRecording (one other : Option String × History) : Prop :=
  one.1.isSome = other.1.isSome ∧ Forall₂ AlikeBut one.2.entries other.2.entries

theorem History.entries_record {history : History} {command : List Char} (moment : Moment)
    (cwd : ByteArray) (outcome : Outcome) (hrecord : history.policy.shouldRecord command = true)
    (hcollapse : history.policy.collapses (history.entries.getLast?.map (·.command))
      (history.policy.redact command) = false) :
    (history.record moment command cwd outcome).1 = some moment.id ∧
      (history.record moment command cwd outcome).2.entries =
        history.entries.drop (history.entries.length + 1 - history.policy.maxEntries) ++
          [Entry.new moment history.session (history.policy.redact command) cwd (some outcome)] := by
  have hpos := history.policy.maxEntries_pos
  simp only [record, hrecord, hcollapse, Bool.not_true, Bool.false_eq_true, if_false, trimmed,
    length_append, length_singleton, true_and]
  split_ifs with h
  · rw [drop_append_of_le_length (by omega)]
  · rw [show history.entries.length + 1 - history.policy.maxEntries = 0 by omega, drop_zero]

variable {one other : List Char} {first second : Outcome}

theorem alikeBut_new_iff (moment moment' : Moment) (session : String) (text : List Char)
    (cwd : ByteArray) (hstatus : first.status = second.status)
    (hduration : first.duration = second.duration) (hadapters : first.adapters = second.adapters) :
    AlikeBut (Entry.new moment session text cwd (some first))
        (Entry.new moment' session text cwd (some second)) ↔ first.plans = second.plans := by
  simp [AlikeBut, Entry.new, hstatus, hduration, hadapters]

theorem forall₂_alikeBut_append_iff (entries : List Entry) {one other : Entry} :
    Forall₂ AlikeBut (entries ++ [one]) (entries ++ [other]) ↔ AlikeBut one other := by
  constructor
  · intro h
    have hlast := forall₂_drop_append _ entries [other] h
    rw [drop_left] at hlast
    cases hlast with
    | cons h _ => exact h
  · exact fun h => rel_append (forall₂_same.2 fun entry _ => .refl entry) (.cons h .nil)

/-- **When history does not depend on redacted secrets.** Two commands that are redacted to one
text, with outcomes of the same status, duration and adapters, leave the same entries exactly when
the repeat is collapsed or their plans are the same. That the plans are redacted to the same texts
does not matter: they are stored as they are. -/
theorem History.record_alike_iff (history : History) (cwd : ByteArray) (moment moment' : Moment)
    (hone : history.policy.shouldRecord one = true)
    (hother : history.policy.shouldRecord other = true)
    (htext : history.policy.redact one = history.policy.redact other)
    (hstatus : first.status = second.status) (hduration : first.duration = second.duration)
    (hadapters : first.adapters = second.adapters) :
    SameRecording (history.record moment one cwd first)
        (history.record moment' other cwd second) ↔
      history.policy.collapses (history.entries.getLast?.map (·.command))
          (history.policy.redact one) = true ∨ first.plans = second.plans := by
  cases hcollapse : history.policy.collapses (history.entries.getLast?.map (·.command))
      (history.policy.redact one) with
  | true =>
    simp [SameRecording, record, hone, hother, ← htext, hcollapse, forall₂_same,
      AlikeBut.refl]
  | false =>
    obtain ⟨hid, hentries⟩ := entries_record moment cwd first hone hcollapse
    obtain ⟨hid', hentries'⟩ := entries_record moment' cwd second hother (htext ▸ hcollapse)
    rw [SameRecording, hid, hid', hentries, hentries', ← htext, forall₂_alikeBut_append_iff,
      alikeBut_new_iff _ _ _ _ _ hstatus hduration hadapters]
    simp

/-! ### A password in a plan -/

/-- The occurrences of a word in what is left of a text, one behind the other. -/
def occurrences (word : List Char) : ℕ → ℕ → List Char → List Captures
  | _, _, [] => []
  | skipped + 1, position, _ :: rest => occurrences word skipped (position + 1) rest
  | 0, position, c :: rest =>
    if word.isPrefixOf (c :: rest) then
      [some (position, position + word.length)] ::
        occurrences word (word.length - 1) (position + 1) rest
    else
      occurrences word 0 (position + 1) rest

/-- The pattern that is a word. -/
def literal (word : String) : Pattern :=
  occurrences word.toList 0 0

/-- A new shell whose policy redacts two passwords. -/
def guarded : History where
  policy :=
    { maxEntries := 20000
      maxEntries_pos := by decide
      collapseRepeats := false
      hideLeadingSpace := true
      redactions := [literal "hunter2", literal "letmein"] }
  entries := []
  session := "session-1"
  persisted := 0
  stale := false

/-- A program that was given a password, and was run with it by its adapter. -/
def given (password : String) : List Char × Outcome :=
  ("fetch ".toList ++ password.toList,
    { status := 0
      duration := 0
      adapters := ["org.ono.compat.fetch".toList]
      plans := ["fetch --json ".toList ++ password.toList] })

/-- Commands that were redacted to one text, and whose plans are redacted to one text, leave
entries that differ. -/
theorem History.not_record_alike :
    ¬ ∀ (history : History) (cwd : ByteArray) (moment moment' : Moment) (one other : List Char)
      (first second : Outcome),
      history.policy.shouldRecord one = true → history.policy.shouldRecord other = true →
      history.policy.redact one = history.policy.redact other →
      first.status = second.status → first.duration = second.duration →
      first.adapters = second.adapters →
      first.plans.map history.policy.redact = second.plans.map history.policy.redact →
      SameRecording (history.record moment one cwd first)
        (history.record moment' other cwd second) := by
  intro h
  have hone : guarded.policy.shouldRecord (given "hunter2").1 = true := by decide +kernel
  have hother : guarded.policy.shouldRecord (given "letmein").1 = true := by decide +kernel
  have htext : guarded.policy.redact (given "hunter2").1 =
      guarded.policy.redact (given "letmein").1 := by
    decide +kernel
  have hsame := (h guarded .empty ⟨"1", 0⟩ ⟨"2", 0⟩ _ _ (given "hunter2").2 (given "letmein").2
    hone hother htext rfl rfl rfl (by decide +kernel)).2
  have hstatus : (given "hunter2").2.status = (given "letmein").2.status := rfl
  have hduration : (given "hunter2").2.duration = (given "letmein").2.duration := rfl
  have hadapters : (given "hunter2").2.adapters = (given "letmein").2.adapters := rfl
  rw [(entries_record _ _ _ hone rfl).2, (entries_record _ _ _ hother rfl).2, ← htext,
    forall₂_alikeBut_append_iff,
    alikeBut_new_iff _ _ _ _ _ hstatus hduration hadapters] at hsame
  exact absurd hsame (by decide +kernel)

theorem History.record_alike_given :
    SameRecording (guarded.record ⟨"1", 0⟩ (given "hunter2").1 .empty (given "hunter2").2)
        (guarded.record ⟨"2", 0⟩ (given "letmein").1 .empty (given "hunter2").2) ↔
      guarded.policy.collapses (guarded.entries.getLast?.map (·.command))
          (guarded.policy.redact (given "hunter2").1) = true ∨
        (given "hunter2").2.plans = (given "hunter2").2.plans :=
  guarded.record_alike_iff .empty ⟨"1", 0⟩ ⟨"2", 0⟩ (by decide +kernel) (by decide +kernel)
    (by decide +kernel) rfl rfl rfl

end OnoSendai.Recall
