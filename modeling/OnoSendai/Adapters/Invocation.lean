import OnoSendai.Kuang.Decode
import OnoSendai.Lib.Ranking

/-!
# Matching an adapted invocation

An adapter knows a program in some of its forms. Each form lists the words that select it, the
flags it lets through, with or without a value, the flags it requires, and the arguments of the
machine-oriented run (`ono_adapter::registry`, `ono_adapter::contract`). Matching a command line
against a form gives the arguments that are passed on. Where a form combines flags, a word of
several letters is taken apart before it is known whether it is the value of a flag.
-/

namespace OnoSendai.Adapters

open List Char

/-! ### Forms -/

/-- Whether further positional words may follow the matched ones. -/
inductive Positionals
  | allow
  | forbid
deriving DecidableEq

/-- What selects an invocation, and the flags it lets through. -/
structure Match where
  words : List (List String)
  allow : List String
  allowWithValue : List String
  require : List String
  combined : Bool
  positionals : Positionals

/-- The machine-oriented invocation. -/
structure Plan where
  argv : List String
  appendUserFlags : Bool
  trailingArgv : List String

/-- One form and the plan it compiles to. -/
structure Invocation where
  matcher : Match
  plan : Plan

/-! ### Matching -/

section Matching

variable (isAlphanumeric : Char → Bool) (matcher : Match)

/-- Whether a form lists a word as one of its flags. -/
def known (argument : String) : Bool :=
  matcher.allow.contains argument || matcher.allowWithValue.contains argument ||
    matcher.require.contains argument

/-- The single-letter flags a word combines where the form says so, or the word itself. -/
def expand (argument : String) : List String :=
  match argument.toList with
  | '-' :: letters =>
    if matcher.combined && !known matcher argument &&
        decide (2 < (argument.toList.map utf8Size).sum) &&
        letters.head? != some '-' && letters.all isAlphanumeric then
      letters.map fun letter => String.ofList ['-', letter]
    else [argument]
  | _ => [argument]

/-- Whether an argument is in the shape of a flag. -/
def isFlag (argument : String) : Bool :=
  argument.toList.head? == some '-' && decide (1 < argument.toList.length)

/-- A flag without the value that stands in the same word. -/
def flagPart (argument : String) : String :=
  String.ofList (argument.toList.takeWhile (· ≠ '='))

/-- Whether a flag has its value in the same word. -/
def hasInline (argument : String) : Bool :=
  argument.toList.contains '='

/-- Whether a flag is one the form requires. -/
def isRequired (argument : String) : Bool :=
  matcher.require.contains (flagPart argument) && !hasInline argument

/-- Whether a flag is one that passes through. -/
def isAllowed (argument : String) : Bool :=
  matcher.allow.contains (flagPart argument) && !hasInline argument

/-- Goes through the arguments: what passes through, and the words, each with its position. -/
def readArguments :
    ℕ → List String → Except String (List (ℕ × String) × List (ℕ × String))
  | _, [] => .ok ([], [])
  | index, argument :: rest =>
    if isFlag argument then
      if isRequired matcher argument then do
        let (passthrough, words) ← readArguments (index + 1) rest
        return (if isAllowed matcher argument then (index, argument) :: passthrough
          else passthrough, words)
      else if isAllowed matcher argument then do
        let (passthrough, words) ← readArguments (index + 1) rest
        return ((index, argument) :: passthrough, words)
      else if matcher.allowWithValue.contains (flagPart argument) then
        if hasInline argument then do
          let (passthrough, words) ← readArguments (index + 1) rest
          return ((index, argument) :: passthrough, words)
        else
          match rest with
          | [] => .error ("\x60" ++ flagPart argument ++ "\x60 without its value")
          | value :: rest => do
            let (passthrough, words) ← readArguments (index + 2) rest
            return ((index, argument) :: (index + 1, value) :: passthrough, words)
      else .error ("\x60" ++ argument ++ "\x60")
    else if matcher.allow.contains argument then do
      let (passthrough, words) ← readArguments (index + 1) rest
      return ((index, argument) :: passthrough, words)
    else do
      let (passthrough, words) ← readArguments (index + 1) rest
      return (passthrough, (index, argument) :: words)

/-- The longer of two alternatives; of equally long ones the later. -/
def longer (best : Option (List String)) (alternative : List String) : Option (List String) :=
  match best with
  | none => some alternative
  | some held => if held.length ≤ alternative.length then some alternative else some held

/-- The longest alternative the words begin with. -/
def selected (words : List String) : Option (List String) :=
  (matcher.words.filter (·.isPrefixOf words)).foldl longer none

/-- The arguments that pass through a form, or the reason it is not covered. -/
def matchInvocation (arguments : List String) : Except String (List String) :=
  let arguments := arguments.flatMap (expand isAlphanumeric matcher)
  match matcher.require.find? (!arguments.contains ·) with
  | some required => .error ("this form without \x60" ++ required ++ "\x60")
  | none => do
    let (passthrough, words) ← readArguments matcher 0 arguments
    match selected matcher (words.map (·.2)) with
    | none => .error ("\x60" ++ ((words.head?.map (·.2)).getD "this form") ++ "\x60")
    | some alternative =>
      let rest := words.drop alternative.length
      if !rest.isEmpty && matcher.positionals = .forbid then
        .error ("\x60" ++ " ".intercalate (rest.map (·.2)) ++ "\x60")
      else
        return ((passthrough ++ rest).insertionSort (·.1 ≤ ·.1)).map (·.2)

/-- The arguments of the run that a form plans for what passes through. -/
def planned (plan : Plan) (passthrough : List String) : List String :=
  plan.argv ++ (if plan.appendUserFlags then passthrough else []) ++ plan.trailingArgv

/-- The first form that covers the arguments, with the arguments of its run. -/
def answer (invocations : List Invocation) (arguments : List String) :
    Except String (Invocation × List String) :=
  invocations.foldr
    (fun invocation others =>
      match matchInvocation isAlphanumeric invocation.matcher arguments with
      | .ok passthrough => .ok (invocation, planned invocation.plan passthrough)
      | .error reason =>
        match others with
        | .ok found => .ok found
        | .error _ => .error reason)
    (.error "this invocation")

/-! ### Reading from left to right -/

/-- What an argument is in the place it stands in. -/
inductive Role
  | flag
  | selecting
  | value
  | word
deriving DecidableEq

/-- Whether a flag takes the next argument as its value. -/
def takesValue (argument : String) : Bool :=
  isFlag argument && !isRequired matcher argument && !isAllowed matcher argument &&
    matcher.allowWithValue.contains (flagPart argument) && !hasInline argument

/-- The role of an argument that stands in no value's place. -/
def roleOf (argument : String) : Role :=
  if isFlag argument then
    if isRequired matcher argument && !isAllowed matcher argument then .selecting else .flag
  else if matcher.allow.contains argument then .flag
  else .word

/-- The arguments with their roles. -/
def roles : List String → List (Role × String)
  | [] => []
  | argument :: rest =>
    if takesValue matcher argument then
      match rest with
      | [] => [(.flag, argument)]
      | value :: rest => (.flag, argument) :: (.value, value) :: roles rest
    else (roleOf matcher argument, argument) :: roles rest

/-- Whether the last of some arguments waits for a value. -/
def awaits : List String → Bool
  | [] => false
  | argument :: rest =>
    if takesValue matcher argument then
      match rest with
      | [] => true
      | _ :: rest => awaits rest
    else awaits rest

/-- The arguments with their combined flags taken apart, and their values left alone. -/
def expandFlags : List String → List String
  | [] => []
  | argument :: rest =>
    let parts := expand isAlphanumeric matcher argument
    if awaits matcher parts then
      match rest with
      | [] => parts
      | value :: rest => parts ++ value :: expandFlags rest
    else parts ++ expandFlags rest

/-- The arguments without the first `selecting` words and the flags that select the form. -/
def keep : ℕ → List (Role × String) → List String
  | _, [] => []
  | selecting, (.selecting, _) :: rest => keep selecting rest
  | 0, (.word, word) :: rest => word :: keep 0 rest
  | selecting + 1, (.word, _) :: rest => keep selecting rest
  | selecting, (_, argument) :: rest => argument :: keep selecting rest

/-- The words among the arguments. -/
def wordsOf (arguments : List (Role × String)) : List String :=
  arguments.filterMap fun (role, word) => if role = .word then some word else none

/-- What passes through is what the user asked for: the command line read from left to right,
without the words that select the form and the flags it requires and does not let through. Every
required flag is there, and where it is nobody's value it stands in the place of a flag. -/
structure Kept (arguments passthrough : List String) : Prop where
  passes : ∃ alternative ∈ matcher.words,
    alternative <+: wordsOf (roles matcher (expandFlags isAlphanumeric matcher arguments)) ∧
    (∀ other ∈ matcher.words,
      other <+: wordsOf (roles matcher (expandFlags isAlphanumeric matcher arguments)) →
      other.length ≤ alternative.length) ∧
    passthrough =
      keep alternative.length (roles matcher (expandFlags isAlphanumeric matcher arguments))
  required : ∀ flag ∈ matcher.require,
    (.value, flag) ∉ roles matcher (expandFlags isAlphanumeric matcher arguments) →
    ∃ role, role ≠ .value ∧
      (role, flag) ∈ roles matcher (expandFlags isAlphanumeric matcher arguments)

/-- No value of a flag would be taken apart. -/
def ValuesPlain (arguments : List String) : Prop :=
  ∀ value, (.value, value) ∈ roles matcher (expandFlags isAlphanumeric matcher arguments) →
    expand isAlphanumeric matcher value = [value]

variable {isAlphanumeric matcher}

/-! ### What is let through -/

/-- What was let through and the words of some arguments stand in the order of the arguments:
sorted by position, what passes through beside the words behind the first ones is what is kept. -/
def Placed (index : ℕ) (passthrough words : List (ℕ × String)) (read : List (Role × String)) :
    Prop :=
  words.map (·.2) = wordsOf read ∧ ∀ selecting, ∃ merged : List (ℕ × String),
    merged.Perm (passthrough ++ words.drop selecting) ∧ merged.Pairwise (·.1 < ·.1) ∧
      (∀ entry ∈ merged, index ≤ entry.1) ∧ merged.map (·.2) = keep selecting read

variable {index : ℕ} {passthrough words : List (ℕ × String)} {read : List (Role × String)}
  {argument : String}

theorem Placed.weaken {later : ℕ} (hle : index ≤ later) (h : Placed later passthrough words read) :
    Placed index passthrough words read := by
  refine ⟨h.1, fun selecting => ?_⟩
  obtain ⟨merged, hperm, hpairwise, hlater, hkeep⟩ := h.2 selecting
  exact ⟨merged, hperm, hpairwise, fun entry hentry => hle.trans (hlater entry hentry), hkeep⟩

theorem Placed.pass {role : Role} (hrole : role = .flag ∨ role = .value)
    (h : Placed (index + 1) passthrough words read) :
    Placed index ((index, argument) :: passthrough) words ((role, argument) :: read) := by
  refine ⟨h.1.trans (by rcases hrole with rfl | rfl <;> simp [wordsOf]), fun selecting => ?_⟩
  obtain ⟨merged, hperm, hpairwise, hlater, hkeep⟩ := h.2 selecting
  refine ⟨(index, argument) :: merged, hperm.cons _, ?_, ?_, ?_⟩
  · exact pairwise_cons.2 ⟨fun entry hentry => hlater entry hentry, hpairwise⟩
  · exact forall_mem_cons.2
      ⟨le_rfl, fun entry hentry => Nat.le_of_succ_le (hlater entry hentry)⟩
  · rcases hrole with rfl | rfl <;> cases selecting <;> simp [keep, hkeep]

theorem Placed.select (h : Placed (index + 1) passthrough words read) :
    Placed index passthrough words ((.selecting, argument) :: read) := by
  have h := h.weaken (Nat.le_succ index)
  refine ⟨h.1.trans (by simp [wordsOf]), fun selecting => ?_⟩
  obtain ⟨merged, hperm, hpairwise, hlater, hkeep⟩ := h.2 selecting
  exact ⟨merged, hperm, hpairwise, hlater, by cases selecting <;> simp [keep, hkeep]⟩

theorem Placed.word (h : Placed (index + 1) passthrough words read) :
    Placed index passthrough ((index, argument) :: words) ((.word, argument) :: read) := by
  refine ⟨by simp [wordsOf, h.1], fun selecting => ?_⟩
  cases selecting with
  | zero =>
    obtain ⟨merged, hperm, hpairwise, hlater, hkeep⟩ := h.2 0
    refine ⟨(index, argument) :: merged, ?_, ?_, ?_, by simp [keep, hkeep]⟩
    · exact (hperm.cons _).trans perm_middle.symm
    · exact pairwise_cons.2 ⟨fun entry hentry => hlater entry hentry, hpairwise⟩
    · exact forall_mem_cons.2
        ⟨le_rfl, fun entry hentry => Nat.le_of_succ_le (hlater entry hentry)⟩
  | succ selecting =>
    obtain ⟨merged, hperm, hpairwise, hlater, hkeep⟩ := (h.weaken (Nat.le_succ index)).2 selecting
    exact ⟨merged, hperm, hpairwise, hlater, by simp [keep, hkeep]⟩

theorem roles_of_takesValue_eq_false (h : takesValue matcher argument = false)
    (rest : List String) :
    roles matcher (argument :: rest) =
      (roleOf matcher argument, argument) :: roles matcher rest := by
  rw [roles.eq_def]
  simp only [h, Bool.false_eq_true, if_false]

/-- **What is let through are the arguments by their roles, in order.** -/
theorem readArguments_eq_ok {arguments : List String}
    (h : readArguments matcher index arguments = .ok (passthrough, words)) :
    Placed index passthrough words (roles matcher arguments) := by
  fun_induction readArguments matcher index arguments generalizing passthrough words with
  | case1 index =>
    cases h
    exact ⟨rfl, fun _ => ⟨[], by simp, .nil, by simp, rfl⟩⟩
  | case2 index argument rest hflag hrequired ih =>
    obtain ⟨⟨front, others⟩, hrest, h⟩ := ok_of_bind h
    rw [roles_of_takesValue_eq_false (by simp [takesValue, hrequired])]
    cases hallowed : isAllowed matcher argument with
    | true =>
      rw [show roleOf matcher argument = .flag by simp [roleOf, hflag, hallowed]]
      simp only [hallowed, if_true] at h
      cases h
      exact (ih hrest).pass (.inl rfl)
    | false =>
      rw [show roleOf matcher argument = .selecting by simp [roleOf, hflag, hrequired, hallowed]]
      simp only [hallowed, Bool.false_eq_true, if_false] at h
      cases h
      exact (ih hrest).select
  | case3 index argument rest hflag hrequired hallowed ih =>
    obtain ⟨⟨front, others⟩, hrest, h⟩ := ok_of_bind h
    cases h
    rw [roles_of_takesValue_eq_false (by simp [takesValue, hallowed]),
      show roleOf matcher argument = .flag by simp [roleOf, hflag, hallowed]]
    exact (ih hrest).pass (.inl rfl)
  | case4 index argument rest hflag hrequired hallowed hvalue hinline ih =>
    obtain ⟨⟨front, others⟩, hrest, h⟩ := ok_of_bind h
    cases h
    rw [roles_of_takesValue_eq_false (by simp [takesValue, hinline]),
      show roleOf matcher argument = .flag by simp [roleOf, hflag, hrequired]]
    exact (ih hrest).pass (.inl rfl)
  | case5 => cases h
  | case6 index argument hflag hrequired hallowed hvalue hinline value rest ih =>
    obtain ⟨⟨front, others⟩, hrest, h⟩ := ok_of_bind h
    cases h
    have htakes : takesValue matcher argument = true := by
      simpa [takesValue, hflag, hrequired, hallowed, hinline] using hvalue
    rw [roles, if_pos htakes]
    exact ((ih hrest).pass (.inr rfl)).pass (.inl rfl)
  | case7 => cases h
  | case8 index argument rest hflag hallow ih =>
    obtain ⟨⟨front, others⟩, hrest, h⟩ := ok_of_bind h
    cases h
    rw [roles_of_takesValue_eq_false (by simp [takesValue, hflag]),
      show roleOf matcher argument = .flag by simpa [roleOf, hflag] using hallow]
    exact (ih hrest).pass (.inl rfl)
  | case9 index argument rest hflag hallow ih =>
    obtain ⟨⟨front, others⟩, hrest, h⟩ := ok_of_bind h
    cases h
    rw [roles_of_takesValue_eq_false (by simp [takesValue, hflag]),
      show roleOf matcher argument = .word by simpa [roleOf, hflag] using hallow]
    exact (ih hrest).word

theorem foldl_longer {P : List String → Prop} {alternatives : List (List String)}
    {best : Option (List String)} {found : List String} (hbest : ∀ held, best = some held → P held)
    (hall : ∀ other ∈ alternatives, P other) (h : alternatives.foldl longer best = some found) :
    P found ∧ (∀ held, best = some held → held.length ≤ found.length) ∧
      ∀ other ∈ alternatives, other.length ≤ found.length := by
  induction alternatives generalizing best with
  | nil => exact ⟨hbest found h, fun held hheld => by cases hheld.symm.trans h; rfl, by simp⟩
  | cons alternative alternatives ih =>
    obtain ⟨hown, hothers⟩ := forall_mem_cons.1 hall
    obtain ⟨next, hnext, hP, hlonger, hheld⟩ : ∃ next, longer best alternative = some next ∧
        P next ∧ alternative.length ≤ next.length ∧
        ∀ held, best = some held → held.length ≤ next.length := by
      cases best with
      | none => exact ⟨alternative, rfl, hown, le_rfl, by simp⟩
      | some held =>
        by_cases hle : held.length ≤ alternative.length
        · exact ⟨alternative, if_pos hle, hown, le_rfl, by simpa using hle⟩
        · exact ⟨held, if_neg hle, hbest held rfl, (not_le.1 hle).le, by simp⟩
    rw [foldl_cons, hnext] at h
    obtain ⟨hfound, hle, hrest⟩ := ih (by rintro _ ⟨⟩; exact hP) hothers h
    have hle := hle next rfl
    exact ⟨hfound, fun held hbest => (hheld held hbest).trans hle,
      forall_mem_cons.2 ⟨hlonger.trans hle, hrest⟩⟩

theorem selected_eq_some {texts alternative : List String}
    (h : selected matcher texts = some alternative) :
    alternative ∈ matcher.words ∧ alternative <+: texts ∧
      ∀ other ∈ matcher.words, other <+: texts → other.length ≤ alternative.length := by
  obtain ⟨⟨hmem, hfound⟩, -, hlongest⟩ := foldl_longer
    (P := fun other => other ∈ matcher.words ∧ other <+: texts) (by simp)
    (fun other hother => by
      rw [mem_filter, isPrefixOf_iff_prefix] at hother
      exact hother) h
  refine ⟨hmem, hfound, fun other hother htexts => hlongest other (mem_filter.2 ⟨hother, ?_⟩)⟩
  exact isPrefixOf_iff_prefix.2 htexts

/-! ### Taking words apart -/

variable (matcher) in
theorem roles_append (parts : List String) : ∃ front, ∀ value rest,
    (awaits matcher parts = true → roles matcher (parts ++ value :: rest) =
      front ++ (.value, value) :: roles matcher rest) ∧
    (awaits matcher parts = false → roles matcher (parts ++ rest) =
      front ++ roles matcher rest) := by
  fun_induction awaits matcher parts with
  | case1 => exact ⟨[], by simp⟩
  | case2 argument htakes => exact ⟨[(.flag, argument)], by simp [roles, htakes]⟩
  | case3 argument htakes held rest ih =>
    obtain ⟨front, hfront⟩ := ih
    refine ⟨(.flag, argument) :: (.value, held) :: front, fun value rest => ?_⟩
    exact ⟨fun h => by simp [roles, htakes, (hfront value rest).1 h],
      fun h => by simp [roles, htakes, (hfront value rest).2 h]⟩
  | case4 argument rest htakes ih =>
    obtain ⟨front, hfront⟩ := ih
    refine ⟨(roleOf matcher argument, argument) :: front, fun value rest => ?_⟩
    simp only [cons_append, roles_of_takesValue_eq_false (Bool.eq_false_of_not_eq_true htakes)]
    exact ⟨fun h => by rw [(hfront value rest).1 h], fun h => by rw [(hfront value rest).2 h]⟩

/-- **When taking words apart respects the values of flags.** -/
theorem expandFlags_eq {arguments : List String}
    (h : ValuesPlain isAlphanumeric matcher arguments) :
    expandFlags isAlphanumeric matcher arguments =
      arguments.flatMap (expand isAlphanumeric matcher) := by
  fun_induction expandFlags isAlphanumeric matcher arguments with
  | case1 => rfl
  | case2 argument parts hawaits => simp [parts]
  | case3 argument parts hawaits value rest ih =>
    obtain ⟨front, hfront⟩ := roles_append matcher parts
    rw [ValuesPlain, expandFlags, if_pos hawaits, (hfront _ _).1 hawaits] at h
    rw [ih fun other hother => h other (by simp [hother]), flatMap_cons, flatMap_cons,
      h value (by simp)]
    rfl
  | case4 argument rest parts hawaits ih =>
    obtain ⟨front, hfront⟩ := roles_append matcher parts
    rw [ValuesPlain, expandFlags.eq_def] at h
    simp only [parts, hawaits, Bool.false_eq_true, if_false] at h
    rw [(hfront "" _).2 (Bool.eq_false_of_not_eq_true hawaits)] at h
    rw [ih fun other hother => h other (by simp [hother]), flatMap_cons]

theorem map_snd_roles (arguments : List String) :
    (roles matcher arguments).map (·.2) = arguments := by
  fun_induction roles matcher arguments with
  | case1 => rfl
  | case2 => rfl
  | case3 argument htakes value rest ih => simp [ih]
  | case4 argument rest htakes ih => simp [ih]

/-! ### What is kept -/

/-- What a form lets through is what the user asked for. -/
theorem kept_of_eq_ok {arguments passthrough : List String}
    (h : matchInvocation isAlphanumeric matcher arguments = .ok passthrough)
    (hplain : ValuesPlain isAlphanumeric matcher arguments) :
    Kept isAlphanumeric matcher arguments passthrough := by
  have hexpand := expandFlags_eq hplain
  rw [matchInvocation.eq_def] at h
  simp only [← hexpand] at h
  cases hfind : matcher.require.find?
      (!(expandFlags isAlphanumeric matcher arguments).contains ·) with
  | some required => rw [hfind] at h; cases h
  | none =>
    rw [hfind] at h
    obtain ⟨⟨passed, words⟩, hread, h⟩ := ok_of_bind h
    obtain ⟨hwords, hplaced⟩ := readArguments_eq_ok hread
    refine ⟨?_, fun flag hflag hvalue => ?_⟩
    · cases hselected : selected matcher (words.map (·.2)) with
      | none => simp only [hselected] at h; cases h
      | some alternative =>
        simp only [hselected] at h
        obtain ⟨hmem, hfound, hlongest⟩ := selected_eq_some hselected
        obtain ⟨merged, hperm, hpairwise, -, hkeep⟩ := hplaced alternative.length
        rw [hwords] at hfound hlongest
        refine ⟨alternative, hmem, hfound, hlongest, ?_⟩
        split_ifs at h
        cases h
        have hsame : merged.insertionSort (·.1 ≤ ·.1) =
            (passed ++ words.drop alternative.length).insertionSort (·.1 ≤ ·.1) :=
          Ranking.insertionSort_eq_of_perm Prod.fst _ (fun _ _ => Iff.rfl) hperm
            (inj_on_of_nodup_map (pairwise_map.2 (hpairwise.imp Nat.ne_of_lt)))
        rw [← hkeep, ← hsame, (hpairwise.imp Nat.le_of_lt).insertionSort_eq]
    · have hmem : flag ∈ expandFlags isAlphanumeric matcher arguments := by
        simpa using find?_eq_none.1 hfind flag hflag
      rw [← @map_snd_roles matcher (expandFlags isAlphanumeric matcher arguments)] at hmem
      obtain ⟨⟨role, _⟩, hrole, rfl⟩ := mem_map.1 hmem
      exact ⟨role, fun heq => hvalue (heq ▸ hrole), hrole⟩

theorem answer_eq_ok {invocations : List Invocation} {arguments argv : List String}
    {invocation : Invocation}
    (h : answer isAlphanumeric invocations arguments = .ok (invocation, argv)) :
    ∃ passthrough,
      matchInvocation isAlphanumeric invocation.matcher arguments = .ok passthrough ∧
      argv = planned invocation.plan passthrough := by
  induction invocations with
  | nil => cases h
  | cons first others ih =>
    rw [answer, foldr_cons, ← answer] at h
    cases hfirst : matchInvocation isAlphanumeric first.matcher arguments with
    | ok passthrough =>
      rw [hfirst] at h
      cases h
      exact ⟨passthrough, hfirst, rfl⟩
    | error reason =>
      rw [hfirst] at h
      cases hothers : answer isAlphanumeric others arguments with
      | ok found =>
        rw [hothers] at h
        cases h
        exact ih hothers
      | error _ => rw [hothers] at h; cases h

/-- **What the user asked for is kept.** -/
theorem kept_of_matchInvocation (arguments : List String) :
    (∀ matcher passthrough,
      matchInvocation isAlphanumeric matcher arguments = .ok passthrough →
      ValuesPlain isAlphanumeric matcher arguments →
      Kept isAlphanumeric matcher arguments passthrough) ∧
    ∀ invocations invocation argv,
      answer isAlphanumeric invocations arguments = .ok (invocation, argv) →
      ∃ passthrough,
        matchInvocation isAlphanumeric invocation.matcher arguments = .ok passthrough ∧
        (invocation.plan.appendUserFlags = true → passthrough <:+: argv) := by
  refine ⟨fun _ _ => kept_of_eq_ok, fun invocations invocation argv h => ?_⟩
  obtain ⟨passthrough, hmatch, rfl⟩ := answer_eq_ok h
  refine ⟨passthrough, hmatch, fun happend => ?_⟩
  rw [planned, if_pos happend]
  exact ⟨_, _, rfl⟩

end Matching

/-- The form of `git log`. -/
def commits : Invocation where
  matcher :=
    { words := [["log"]]
      allow := ["--all", "--merges", "--no-merges", "--first-parent", "--reverse", "--no-decorate",
        "--"]
      allowWithValue := ["-n", "--max-count", "--since", "--until", "--after", "--before",
        "--author", "--committer", "--grep", "--skip"]
      require := [], combined := false, positionals := .allow }
  plan :=
    { argv := ["git", "log", "--format=%H%x00%h%x00%an%x00%ae%x00%aI%x00%cn%x00%cI%x00%s%x00%P%x1e"]
      appendUserFlags := true, trailingArgv := [] }

theorem kept_of_matchInvocation_commits :
    Kept isAlphanum commits.matcher ["log", "-n", "20", "--all", "main"]
        ["-n", "20", "--all", "main"] ∧
      ["-n", "20", "--all", "main"] <:+: planned commits.plan ["-n", "20", "--all", "main"] := by
  have hmatch : matchInvocation isAlphanum commits.matcher ["log", "-n", "20", "--all", "main"] =
      .ok ["-n", "20", "--all", "main"] := by decide +kernel
  have hroles : roles commits.matcher (expandFlags isAlphanum commits.matcher
      ["log", "-n", "20", "--all", "main"]) =
      [(.word, "log"), (.flag, "-n"), (.value, "20"), (.flag, "--all"), (.word, "main")] := by
    decide +kernel
  obtain ⟨hkept, hplanned⟩ := @kept_of_matchInvocation isAlphanum
    ["log", "-n", "20", "--all", "main"]
  refine ⟨hkept _ _ hmatch fun value hvalue => ?_, ?_⟩
  · rw [hroles] at hvalue
    obtain rfl : value = "20" := by simpa using hvalue
    rfl
  · obtain ⟨passthrough, hpass, hargv⟩ := hplanned [commits] commits _
      (by rw [answer, foldr_cons, hmatch])
    rw [hmatch] at hpass
    cases hpass
    exact hargv rfl

/-- The form of `ss` that covers the sockets of both protocols. -/
def sockets : Invocation where
  matcher :=
    { words := [[]]
      allow := ["-t", "-u", "-a", "-l", "-n", "-p", "-e", "-4", "-6", "-m", "-i", "-o"]
      allowWithValue := [], require := [], combined := true, positionals := .forbid }
  plan := { argv := ["ss", "-H", "-O", "-n", "-e"], appendUserFlags := true, trailingArgv := [] }

/-- The form of `ps` that covers every process. -/
def everyProcess : Invocation where
  matcher :=
    { words := [[]]
      allow := ["-e", "-A", "-ef", "-f", "-F", "-l", "-j", "-H", "--forest", "-w", "-ww"]
      allowWithValue := [], require := ["-e"], combined := false, positionals := .forbid }
  plan :=
    { argv := ["ps", "-e", "-o", "pid=,ppid=,user=,stat=,pcpu=,rss=,vsz=,nlwp=,etimes=,args="]
      appendUserFlags := false, trailingArgv := [] }

/-- A value is taken apart like a flag, a required flag may stand as the value of another, and a
plan need not append what passes through. -/
theorem not_kept :
    (¬ ∀ matcher arguments passthrough,
        matchInvocation isAlphanum matcher arguments = .ok passthrough →
        ∃ alternative ∈ matcher.words, passthrough =
          keep alternative.length (roles matcher (expandFlags isAlphanum matcher arguments))) ∧
      (¬ ∀ matcher arguments passthrough,
        matchInvocation isAlphanum matcher arguments = .ok passthrough →
        ∀ flag ∈ matcher.require, ∃ role, role ≠ .value ∧
          (role, flag) ∈ roles matcher (expandFlags isAlphanum matcher arguments)) ∧
      ¬ ∀ invocations arguments invocation argv passthrough,
        answer isAlphanum invocations arguments = .ok (invocation, argv) →
        matchInvocation isAlphanum invocation.matcher arguments = .ok passthrough →
        ∀ argument ∈ passthrough, argument ∈ argv := by
  refine ⟨fun h => ?_, fun h => ?_, fun h => ?_⟩
  · obtain ⟨alternative, hmem, hkeep⟩ :=
      h { sockets.matcher with allow := ["-a", "-b"], allowWithValue := ["-o"] } ["-o", "-ab"]
        ["-o", "-a", "-b"] (by decide +kernel)
    rw [mem_singleton.1 hmem] at hkeep
    revert hkeep
    decide +kernel
  · obtain ⟨role, hrole, hmem⟩ :=
      h { sockets.matcher with allowWithValue := ["-f"], require := ["-e"] }
      ["-f", "-e"] ["-f", "-e"] (by decide +kernel) "-e" (by simp)
    rw [show roles _ (expandFlags _ _ _) = [(.flag, "-f"), (.value, "-e")] by
      decide +kernel] at hmem
    simp at hmem
    exact hrole hmem
  · have hargv := h [everyProcess] ["-e", "--forest"] everyProcess everyProcess.plan.argv
      ["-e", "--forest"] rfl rfl "--forest" (by simp)
    revert hargv
    decide

end OnoSendai.Adapters
