import OnoSendai.Command.Bind

/-!
# What the arguments of a command say

An argument list is read as a list of writings: which parameter something was written for, what it
was written as, and what it is bound to. At most one option waits for an argument at a time, and the
reading needs to know no more than which. The loop over the arguments does the same with three
options that may wait and with the writings sorted by their parameters.
-/

namespace OnoSendai.Command

open CommandContract List

variable {E : Type}

/-! ### Writings -/

/-- A parameter of a command, by its name. -/
inductive Slot
  | selector (name : String)
  | option (name : String)
deriving DecidableEq

/-- Something written for a parameter: the argument it was written as, unless the name of an option
alone stands for it, and what it is bound to. -/
structure Writing (E : Type) where
  slot : Slot
  source : Option (Argument E)
  binding : Binding E

/-- The option that waits for an argument: for its value, for a value it can do without, or for a
truth value. -/
inductive Waiting
  | nothing
  | value (spec : ParameterSpec)
  | optional (spec : ParameterSpec)
  | flag (spec : ParameterSpec)

/-- The option with its name alone. -/
def bare (spec : ParameterSpec) : Writing E where
  slot := .option spec.name
  source := none
  binding := .value (.bool true)

section Reading

variable (parsers : TextParsers) (contract : CommandContract)

/-- The writings an option that waits comes to when no argument follows for it. -/
def Waiting.settled : Waiting → Except ErrorValue (List (Writing E))
  | nothing => .ok []
  | value spec => .error (contract.missingOptionValue spec)
  | optional spec => .ok [bare spec]
  | flag spec => .ok [bare spec]

/-- What an option does, written with its name and perhaps a value. -/
def writtenOption (name : String) (value : Option (Expr E)) :
    Except ErrorValue (List (Writing E) × Waiting) :=
  match contract.option name with
  | none => .error (contract.unknownOption name)
  | some spec =>
    match value with
    | some expression =>
      match contract.bindExpression parsers spec expression with
      | .ok binding => .ok ([⟨.option spec.name, some (.value expression), binding⟩], .nothing)
      | .error error => .error error
    | none =>
      if spec.optionalValue then .ok ([], .optional spec)
      else if spec.declaredType.isFlag then .ok ([], .flag spec)
      else .ok ([], .value spec)

/-- What an argument that goes to a selector does. -/
def writtenPositional (used : List Bool) (argument : Argument E) :
    Except ErrorValue (List (Writing E) × List Bool) :=
  match contract.positionalBinding parsers used argument with
  | .ok (spec, index, binding) =>
    .ok ([⟨.selector spec.name, some argument, binding⟩], used.set index true)
  | .error error => .error error

/-- What a word or a value does. -/
def writtenValue (used : List Bool) (waiting : Waiting) (argument : Argument E) :
    Except ErrorValue (List (Writing E) × List Bool) :=
  match waiting with
  | .nothing => writtenPositional parsers contract used argument
  | .value spec =>
    match contract.bindArgument parsers spec argument with
    | .ok binding => .ok ([⟨.option spec.name, some argument, binding⟩], used)
    | .error error => .error error
  | .optional spec =>
    match contract.bindArgument parsers spec argument with
    | .ok binding => .ok ([⟨.option spec.name, some argument, binding⟩], used)
    | .error _ =>
      (writtenPositional parsers contract used argument).map fun (ws, used) =>
        (bare spec :: ws, used)
  | .flag spec =>
    match argument with
    | .word text =>
      match parseBool text with
      | some explicit =>
        .ok ([⟨.option spec.name, some argument, .value (.bool explicit)⟩], used)
      | none =>
        (writtenPositional parsers contract used argument).map fun (ws, used) =>
          (bare spec :: ws, used)
    | _ =>
      (writtenPositional parsers contract used argument).map fun (ws, used) =>
        (bare spec :: ws, used)

/-- Whether an argument only separates what is assigned from what it is assigned to. An option that
waits for a value takes the sign as one. -/
def Waiting.skips (waiting : Waiting) (argument : Argument E) : Bool :=
  match waiting with
  | nothing | flag _ => argument.isSeparator
  | value _ | optional _ => false

/-- The writings of an argument list. -/
def written : List Bool → Waiting → List (Argument E) → Except ErrorValue (List (Writing E))
  | _, waiting, [] => waiting.settled contract
  | used, waiting, argument :: rest =>
    if waiting.skips argument then written used waiting rest
    else
      match argument with
      | .option name value => do
        let before ← waiting.settled contract
        let (here, waiting) ← writtenOption parsers contract name value
        let after ← written used waiting rest
        return before ++ here ++ after
      | argument => do
        let (here, used) ← writtenValue parsers contract used waiting argument
        let after ← written used .nothing rest
        return here ++ after

end Reading

/-! ### The loop reads what is written -/

/-- The writings of selectors and those of options, sorted by their parameters. -/
abbrev Sorted (E : Type) :=
  List (String × List (Binding E)) × List (String × List (Binding E))

/-- Sorts a writing in. -/
def Sorted.write (sorted : Sorted E) (w : Writing E) : Sorted E :=
  match w.slot with
  | .selector name => (push sorted.1 name w.binding, sorted.2)
  | .option name => (sorted.1, push sorted.2 name w.binding)

/-- Sorts writings in, in their order. -/
def Sorted.writeAll (sorted : Sorted E) (ws : List (Writing E)) : Sorted E :=
  ws.foldl Sorted.write sorted

/-- The state of the loop in which an option waits. -/
def stateOf (sorted : Sorted E) (used : List Bool) : Waiting → BindState E
  | .nothing => ⟨sorted.1, sorted.2, used, none, none, none⟩
  | .value spec => ⟨sorted.1, sorted.2, used, some spec, none, none⟩
  | .optional spec => ⟨sorted.1, sorted.2, used, none, none, some spec⟩
  | .flag spec => ⟨sorted.1, sorted.2, used, none, some spec, none⟩

section Refinement

variable {parsers : TextParsers} {contract : CommandContract} {sorted : Sorted E} {used : List Bool}
  {waiting : Waiting} {argument : Argument E} {arguments : List (Argument E)} {spec : ParameterSpec}

theorem writeAll_append (ws ws' : List (Writing E)) :
    sorted.writeAll (ws ++ ws') = (sorted.writeAll ws).writeAll ws' :=
  foldl_append

theorem bindPositional_stateOf :
    bindPositional parsers contract (stateOf sorted used .nothing) argument =
      (writtenPositional parsers contract used argument).map fun (ws, used) =>
        stateOf (sorted.writeAll ws) used .nothing := by
  have hused : (stateOf sorted used .nothing : BindState E).used = used := rfl
  rw [bindPositional, writtenPositional, hused]
  cases contract.positionalBinding parsers used argument with
  | error error => rfl
  | ok found => rfl

theorem bindAfterFlag_stateOf_nothing :
    bindAfterFlag parsers contract (stateOf sorted used .nothing) argument =
      bindPositional parsers contract (stateOf sorted used .nothing) argument := by
  cases argument <;> rfl

theorem bindPositional_bare :
    bindPositional parsers contract
        (stateOf (sorted.writeAll [bare spec]) used .nothing) argument =
      ((writtenPositional parsers contract used argument).map fun (ws, used) =>
        (bare spec :: ws, used)).map fun (ws, used) =>
          stateOf (sorted.writeAll ws) used .nothing := by
  rw [bindPositional_stateOf]
  cases writtenPositional parsers contract used argument with
  | error error => rfl
  | ok here => rfl

/-- The loop at a word or a value. -/
theorem bindValue_stateOf :
    bindValue parsers contract (stateOf sorted used waiting) argument =
      (writtenValue parsers contract used waiting argument).map fun (ws, used) =>
        stateOf (sorted.writeAll ws) used .nothing := by
  cases waiting with
  | nothing =>
    exact bindAfterFlag_stateOf_nothing.trans bindPositional_stateOf
  | value spec =>
    show (match contract.bindArgument parsers spec argument with
      | .ok binding => _
      | .error error => _) = _
    rw [writtenValue]
    cases contract.bindArgument parsers spec argument <;> rfl
  | optional spec =>
    show (match contract.bindArgument parsers spec argument with
      | .ok binding => _
      | .error _ => _) = _
    rw [writtenValue]
    cases contract.bindArgument parsers spec argument with
    | ok binding => rfl
    | error error => exact bindAfterFlag_stateOf_nothing.trans bindPositional_bare
  | flag spec =>
    cases argument with
    | word text =>
      show (match parseBool text with
        | some explicit => _
        | none => _) = _
      rw [writtenValue]
      cases parseBool text with
      | some explicit => rfl
      | none => exact bindPositional_bare
    | option name value => exact bindPositional_bare
    | value expression => exact bindPositional_bare
    | error => exact bindPositional_bare

/-- The loop at an option that nothing waits in front of. -/
theorem bindOption_stateOf_nothing (name : String) (value : Option (Expr E)) :
    bindOption parsers contract (stateOf sorted used .nothing) name value =
      (writtenOption parsers contract name value).map fun (here, next) =>
        stateOf (sorted.writeAll here) used next := by
  show (match contract.option name with
    | none => _
    | some spec => _) = _
  rw [writtenOption]
  cases contract.option name with
  | none => rfl
  | some spec =>
    cases value with
    | some expression =>
      dsimp only
      cases contract.bindExpression parsers spec expression <;> rfl
    | none =>
      dsimp only
      split_ifs <;> rfl

/-- The loop at an option. -/
theorem bindOption_stateOf (name : String) (value : Option (Expr E)) :
    bindOption parsers contract (stateOf sorted used waiting) name value =
      ((waiting.settled contract).bind fun before =>
        (writtenOption parsers contract name value).map fun (here, next) =>
          stateOf (sorted.writeAll (before ++ here)) used next) := by
  have hbare (spec : ParameterSpec) :
      bindOption parsers contract (stateOf (sorted.writeAll [bare spec]) used .nothing) name value =
        (writtenOption parsers contract name value).map fun (here, next) =>
          stateOf (sorted.writeAll ([bare spec] ++ here)) used next := by
    rw [bindOption_stateOf_nothing]
    rfl
  cases waiting with
  | nothing => exact bindOption_stateOf_nothing name value
  | value spec => rfl
  | optional spec => exact hbare spec
  | flag spec => exact hbare spec

theorem bindStep_of_skips (h : waiting.skips argument = true) :
    bindStep parsers contract (stateOf sorted used waiting) argument =
      .ok (stateOf sorted used waiting) := by
  cases waiting with
  | nothing | flag spec =>
    have hseparator : argument.isSeparator = true := h
    simp [bindStep, stateOf, hseparator]
  | value spec | optional spec => cases h

theorem bindStep_option (name : String) (value : Option (Expr E)) :
    bindStep parsers contract (stateOf sorted used waiting) (.option name value) =
      bindOption parsers contract (stateOf sorted used waiting) name value := by
  simp [bindStep, Argument.isSeparator]

theorem bindStep_value (h : waiting.skips argument = false)
    (hvalue : ∀ name value, argument ≠ .option name value) :
    bindStep parsers contract (stateOf sorted used waiting) argument =
      bindValue parsers contract (stateOf sorted used waiting) argument := by
  have hread : ((stateOf sorted used waiting).pending.isNone &&
      (stateOf sorted used waiting).pendingOptional.isNone && argument.isSeparator) = false := by
    cases waiting <;> simp_all [stateOf, Waiting.skips]
  rw [bindStep, hread, if_neg Bool.false_ne_true]
  exact hvalue

theorem written_of_skips (h : waiting.skips argument = true) :
    written parsers contract used waiting (argument :: arguments) =
      written parsers contract used waiting arguments := by
  rw [written.eq_def]
  exact if_pos h

theorem written_option (name : String) (value : Option (Expr E)) :
    written parsers contract used waiting (.option name value :: arguments) =
      (waiting.settled contract).bind fun before =>
        (writtenOption parsers contract name value).bind fun found =>
          (written parsers contract used found.2 arguments).map fun after =>
            before ++ found.1 ++ after := by
  have hskips : waiting.skips (.option name value : Argument E) = false := by
    cases waiting <;> rfl
  rw [written, hskips]
  rfl

theorem written_value (h : waiting.skips argument = false)
    (hvalue : ∀ name value, argument ≠ .option name value) :
    written parsers contract used waiting (argument :: arguments) =
      (writtenValue parsers contract used waiting argument).bind fun found =>
        (written parsers contract found.2 .nothing arguments).map fun after =>
          found.1 ++ after := by
  rw [written.eq_def]
  dsimp only
  rw [h, if_neg Bool.false_ne_true]
  cases argument with
  | option name value => exact absurd rfl (hvalue name value)
  | word text | value expression | error => rfl

theorem finish_stateOf :
    (finish contract (stateOf sorted used waiting)).map (fun state => (state.selectors, state.options))
      = (waiting.settled contract).map sorted.writeAll := by
  cases waiting <;> rfl

/-- The loop sorts in what is written. -/
theorem foldlM_bindStep (arguments : List (Argument E)) (sorted : Sorted E) (used : List Bool)
    (waiting : Waiting) :
    ((arguments.foldlM (bindStep parsers contract) (stateOf sorted used waiting)).bind
        (finish contract)).map (fun state => (state.selectors, state.options)) =
      (written parsers contract used waiting arguments).map sorted.writeAll := by
  induction arguments generalizing sorted used waiting with
  | nil => exact finish_stateOf
  | cons argument rest ih =>
    rw [foldlM_cons]
    by_cases hoption : ∃ name value, argument = .option name value
    · obtain ⟨name, value, rfl⟩ := hoption
      rw [bindStep_option, bindOption_stateOf, written_option]
      cases waiting.settled contract with
      | error error => rfl
      | ok before =>
        cases writtenOption parsers contract name value with
        | error error => rfl
        | ok found =>
          refine (ih _ _ _).trans ?_
          dsimp only [Except.bind]
          cases written parsers contract used found.2 rest with
          | error error => rfl
          | ok after => exact congrArg Except.ok (writeAll_append _ _).symm
    · have hvalue : ∀ name value, argument ≠ .option name value :=
        fun name value heq => hoption ⟨name, value, heq⟩
      cases hskips : waiting.skips argument with
      | true =>
        rw [bindStep_of_skips hskips, written_of_skips hskips]
        exact ih sorted used waiting
      | false =>
        rw [bindStep_value hskips hvalue, bindValue_stateOf, written_value hskips hvalue]
        cases writtenValue parsers contract used waiting argument with
        | error error => rfl
        | ok found =>
          refine (ih _ _ _).trans ?_
          dsimp only [Except.bind]
          cases written parsers contract found.2 .nothing rest with
          | error error => rfl
          | ok after => exact congrArg Except.ok (writeAll_append _ _).symm

end Refinement

/-- The writings of the arguments of a stage. -/
def CommandContract.reading (parsers : TextParsers) (contract : CommandContract)
    (arguments : List (Argument E)) : Except ErrorValue (List (Writing E)) :=
  written parsers contract (replicate contract.selectors.length false) .nothing arguments

/-- What sorted writings are bound to. -/
def Sorted.bound (contract : CommandContract) (sorted : Sorted E) : BoundArguments E where
  spelling := contract.spelling
  selectors := merge sorted.1 contract.selectors
  options := merge sorted.2 contract.options
  ambient := []
  declaredSelectors := contract.selectors
  declaredOptions := contract.options
  directory := none

/-- What some writings are bound to. -/
def boundOf (contract : CommandContract) (ws : List (Writing E)) : BoundArguments E :=
  (Sorted.writeAll ([], []) ws).bound contract

/-- **The loop reads what the argument list says.** -/
theorem bind_eq (parsers : TextParsers) (contract : CommandContract)
    (arguments : List (Argument E)) :
    contract.bind parsers arguments =
      (contract.reading parsers arguments).map (boundOf contract) := by
  have hbind : contract.bind parsers arguments =
      (((arguments.foldlM (bindStep parsers contract) (.start contract)).bind
        (finish contract)).map fun state => (state.selectors, state.options)).map
          (Sorted.bound contract) := by
    rw [CommandContract.bind]
    cases arguments.foldlM (bindStep parsers contract) (.start contract) with
    | error error => rfl
    | ok state =>
      dsimp only [Bind.bind, Except.bind]
      cases finish contract state <;> rfl
  have hstart : BindState.start contract = stateOf (([], []) : Sorted E)
    (replicate contract.selectors.length false) .nothing := rfl
  rw [hbind, hstart, foldlM_bindStep, reading]
  cases written parsers contract _ .nothing arguments <;> rfl

/-! ### Every argument is written for one parameter -/

/-- A parameter reads an argument: a word or a quoted text as a value of its type, and every other
expression as it is. -/
inductive Reads (parsers : TextParsers) (spec : ParameterSpec) : Argument E → Binding E → Prop
  | word {text v} : spec.declaredType.coerce parsers text = .ok v →
      Reads parsers spec (.word text) (.value v)
  | literal {parts text v} : literalText parts = some text →
      spec.declaredType.coerce parsers text = .ok v →
      Reads parsers spec (.value (.str parts)) (.value v)
  | kept {expression} : Reads parsers spec (.value expression) (.expressions [expression])

/-- A writing fits what a command declares. -/
inductive Fits (parsers : TextParsers) (contract : CommandContract) : Writing E → Prop
  | selector {spec argument binding} : spec ∈ contract.selectors →
      Reads parsers spec argument binding →
      Fits parsers contract ⟨.selector spec.name, some argument, binding⟩
  | option {spec argument binding} : spec ∈ contract.options →
      Reads parsers spec argument binding →
      Fits parsers contract ⟨.option spec.name, some argument, binding⟩
  | bare {spec} : spec ∈ contract.options → Fits parsers contract (bare spec)

/-- The words and values of an argument list, with the values of its options. -/
def argumentValues (arguments : List (Argument E)) : List (Argument E) :=
  arguments.flatMap fun
    | .word text => [.word text]
    | .value expression => [.value expression]
    | .option _ (some expression) => [.value expression]
    | .option _ none => []
    | .error => []

/-- The arguments other than the bare sign of an assignment. -/
def withoutSeparators (arguments : List (Argument E)) : List (Argument E) :=
  arguments.filter fun argument => !argument.isSeparator

section Completeness

variable {parsers : TextParsers} {contract : CommandContract} {used : List Bool}
  {waiting : Waiting} {argument : Argument E} {spec : ParameterSpec} {binding : Binding E}

theorem reads_of_coerce {text : String} (h : contract.coerce parsers spec text = .ok binding) :
    ∃ v, binding = .value v ∧ spec.declaredType.coerce parsers text = .ok v := by
  rw [coerce] at h
  cases hcoerce : spec.declaredType.coerce parsers text with
  | error error => rw [hcoerce] at h; cases h
  | ok v =>
    rw [hcoerce] at h
    cases h
    exact ⟨v, rfl, rfl⟩

theorem reads_of_bindExpression {expression : Expr E}
    (h : contract.bindExpression parsers spec expression = .ok binding) :
    Reads parsers spec (.value expression) binding := by
  unfold bindExpression at h
  split at h
  · rename_i parts hmode
    cases htext : literalText parts with
    | none =>
      rw [htext] at h
      cases h
      exact .kept
    | some text =>
      rw [htext] at h
      obtain ⟨v, rfl, hv⟩ := reads_of_coerce h
      exact .literal htext hv
  · cases h
    exact .kept

theorem reads_of_bindArgument (h : contract.bindArgument parsers spec argument = .ok binding) :
    Reads parsers spec argument binding := by
  cases argument with
  | word text =>
    obtain ⟨v, rfl, hv⟩ := reads_of_coerce h
    exact .word hv
  | value expression => exact reads_of_bindExpression h
  | option name value => cases h
  | error => cases h

/-- An argument that goes to a selector is read by it. -/
theorem reads_of_positionalBinding {index : ℕ}
    (h : contract.positionalBinding parsers used argument = .ok (spec, index, binding)) :
    spec ∈ contract.selectors ∧ Reads parsers spec argument binding := by
  rw [positionalBinding] at h
  cases hfind : (contract.candidates used).findSome? (contract.fit parsers argument) with
  | none => rw [hfind] at h; cases h
  | some found =>
    rw [hfind] at h
    cases h
    obtain ⟨candidate, hcandidate, hfit⟩ := exists_of_findSome?_eq_some hfind
    rw [fit] at hfit
    cases hbind : contract.bindArgument parsers candidate.1 argument with
    | error error => rw [hbind] at hfit; cases hfit
    | ok found =>
      rw [hbind] at hfit
      cases hfit
      refine ⟨?_, reads_of_bindArgument hbind⟩
      have hmem : candidate ∈ contract.selectors.zipIdx := by
        rcases mem_append.1 hcandidate with h | h <;> exact (mem_filter.1 h).1
      exact fst_mem_of_mem_zipIdx hmem

/-- The option that waits is declared, and it is one that may wait so. -/
def Waiting.Declared (contract : CommandContract) : Waiting → Prop
  | nothing => True
  | value spec | optional spec => spec ∈ contract.options
  | flag spec => spec ∈ contract.options ∧ spec.declaredType = .bool

/-- Writings that fit what the command declares and come from the given arguments. -/
def Tells (parsers : TextParsers) (contract : CommandContract) (arguments : List (Argument E))
    (ws : List (Writing E)) : Prop :=
  withoutSeparators (ws.filterMap (·.source)) = withoutSeparators (argumentValues arguments) ∧
    ∀ w ∈ ws, Fits parsers contract w

theorem Tells.append {arguments arguments' : List (Argument E)} {ws ws' : List (Writing E)}
    (h : Tells parsers contract arguments ws) (h' : Tells parsers contract arguments' ws') :
    Tells parsers contract (arguments ++ arguments') (ws ++ ws') := by
  refine ⟨?_, fun w hw => (mem_append.1 hw).elim (h.2 w) (h'.2 w)⟩
  rw [withoutSeparators, filterMap_append, filter_append, argumentValues,
    flatMap_append, withoutSeparators, filter_append]
  exact congrArg₂ _ h.1 h'.1

theorem Tells.nil : Tells parsers contract ([] : List (Argument E)) [] :=
  ⟨rfl, fun _ hw => absurd hw not_mem_nil⟩

variable {arguments : List (Argument E)} {ws : List (Writing E)}

theorem Tells.bare (hspec : spec ∈ contract.options) (h : Tells parsers contract arguments ws) :
    Tells parsers contract arguments (bare spec :: ws) :=
  ⟨h.1, fun w hw => (mem_cons.1 hw).elim (fun heq => heq ▸ .bare hspec) (h.2 w)⟩

theorem Reads.argumentValues_eq (h : Reads parsers spec argument binding) :
    argumentValues [argument] = [argument] := by
  cases h <;> rfl

theorem Reads.selector (h : Reads parsers spec argument binding)
    (hspec : spec ∈ contract.selectors) :
    Tells parsers contract [argument] [⟨.selector spec.name, some argument, binding⟩] := by
  refine ⟨?_, fun w hw => mem_singleton.1 hw ▸ .selector hspec h⟩
  rw [h.argumentValues_eq]
  rfl

theorem Reads.option (h : Reads parsers spec argument binding) (hspec : spec ∈ contract.options) :
    Tells parsers contract [argument] [⟨.option spec.name, some argument, binding⟩] := by
  refine ⟨?_, fun w hw => mem_singleton.1 hw ▸ .option hspec h⟩
  rw [h.argumentValues_eq]
  rfl

theorem tells_settled (hdeclared : waiting.Declared contract)
    (h : waiting.settled contract = .ok ws) : Tells parsers contract [] ws := by
  cases waiting with
  | nothing => cases h; exact .nil
  | value spec => cases h
  | optional spec => cases h; exact .bare hdeclared .nil
  | flag spec => cases h; exact .bare hdeclared.1 .nil

variable {found : List (Writing E) × List Bool}

theorem tells_writtenPositional (h : writtenPositional parsers contract used argument = .ok found) :
    Tells parsers contract [argument] found.1 := by
  rw [writtenPositional] at h
  cases hbinding : contract.positionalBinding parsers used argument with
  | error error => rw [hbinding] at h; cases h
  | ok place =>
    obtain ⟨spec, index, binding⟩ := place
    rw [hbinding] at h
    cases h
    obtain ⟨hspec, hreads⟩ := reads_of_positionalBinding hbinding
    exact hreads.selector hspec

theorem tells_bare_writtenPositional (hspec : spec ∈ contract.options)
    (h : (writtenPositional parsers contract used argument).map (fun found =>
      (bare spec :: found.1, found.2)) = .ok found) :
    Tells parsers contract [argument] found.1 := by
  cases hplace : writtenPositional parsers contract used argument with
  | error error => rw [hplace] at h; cases h
  | ok place =>
    rw [hplace] at h
    cases h
    exact (tells_writtenPositional hplace).bare hspec

theorem coerce_bool_of_parseBool {text : String} {flag : Bool} (h : parseBool text = some flag) :
    DeclaredType.coerce parsers .bool text = .ok (.bool flag) := by
  unfold parseBool at h
  split at h <;> cases h <;> rfl

theorem tells_writtenValue (hdeclared : waiting.Declared contract)
    (h : writtenValue parsers contract used waiting argument = .ok found) :
    Tells parsers contract [argument] found.1 := by
  rw [writtenValue.eq_def] at h
  cases waiting with
  | nothing => exact tells_writtenPositional h
  | value spec =>
    dsimp only at h
    cases hbind : contract.bindArgument parsers spec argument with
    | error error => rw [hbind] at h; cases h
    | ok binding =>
      rw [hbind] at h
      cases h
      exact (reads_of_bindArgument hbind).option hdeclared
  | optional spec =>
    dsimp only at h
    cases hbind : contract.bindArgument parsers spec argument with
    | error error =>
      rw [hbind] at h
      exact tells_bare_writtenPositional hdeclared h
    | ok binding =>
      rw [hbind] at h
      cases h
      exact (reads_of_bindArgument hbind).option hdeclared
  | flag spec =>
    obtain ⟨hspec, hbool⟩ := hdeclared
    cases argument with
    | word text =>
      dsimp only at h
      cases hparse : parseBool text with
      | none =>
        rw [hparse] at h
        exact tells_bare_writtenPositional hspec h
      | some explicit =>
        rw [hparse] at h
        cases h
        have hreads : Reads parsers spec (.word text : Argument E) (.value (.bool explicit)) :=
          .word (hbool ▸ coerce_bool_of_parseBool hparse)
        exact hreads.option hspec
    | option name value => exact tells_bare_writtenPositional hspec h
    | value expression => exact tells_bare_writtenPositional hspec h
    | error => exact tells_bare_writtenPositional hspec h

theorem tells_writtenOption {name : String} {value : Option (Expr E)}
    {found : List (Writing E) × Waiting}
    (h : writtenOption parsers contract name value = .ok found) :
    Tells parsers contract [.option name value] found.1 ∧ found.2.Declared contract := by
  rw [writtenOption] at h
  cases hoption : contract.option name with
  | none => rw [hoption] at h; cases h
  | some spec =>
    have hspec : spec ∈ contract.options := mem_of_find?_eq_some hoption
    rw [hoption] at h
    cases value with
    | some expression =>
      dsimp only at h
      cases hbind : contract.bindExpression parsers spec expression with
      | error error => rw [hbind] at h; cases h
      | ok binding =>
        rw [hbind] at h
        cases h
        exact ⟨(reads_of_bindExpression hbind).option hspec, trivial⟩
    | none =>
      have hnone : Tells parsers contract [(.option name none : Argument E)] [] :=
        ⟨rfl, fun _ hw => absurd hw not_mem_nil⟩
      dsimp only at h
      split_ifs at h with hoptional hflag <;> cases h
      · exact ⟨hnone, hspec⟩
      · exact ⟨hnone, hspec, by simpa [DeclaredType.isFlag] using hflag⟩
      · exact ⟨hnone, hspec⟩

theorem withoutSeparators_of_skips (h : waiting.skips argument = true) :
    withoutSeparators (argumentValues (argument :: arguments)) =
      withoutSeparators (argumentValues arguments) := by
  have hseparator : argument.isSeparator = true := by cases waiting <;> first | exact h | cases h
  cases argument with
  | word text => simp [argumentValues, withoutSeparators, hseparator]
  | option name value => cases hseparator
  | value expression => cases hseparator
  | error => cases hseparator

/-- **Every argument is written once.** The writings of an argument list fit what the command
declares, and come from its words, its values and the values of its options, in their order. -/
theorem tells_written (hdeclared : waiting.Declared contract)
    (h : written parsers contract used waiting arguments = .ok ws) :
    Tells parsers contract arguments ws := by
  induction arguments generalizing used waiting ws with
  | nil => exact tells_settled hdeclared h
  | cons argument rest ih =>
    by_cases hoption : ∃ name value, argument = .option name value
    · obtain ⟨name, value, rfl⟩ := hoption
      rw [written_option] at h
      obtain ⟨before, hbefore, h⟩ := ok_of_bind h
      obtain ⟨found, hfound, h⟩ := ok_of_bind h
      cases hafter : written parsers contract used found.2 rest with
      | error error => rw [hafter] at h; cases h
      | ok after =>
        rw [hafter] at h
        cases h
        obtain ⟨hhere, hnext⟩ := tells_writtenOption hfound
        exact ((tells_settled hdeclared hbefore).append hhere).append (ih hnext hafter)
    · have hvalue : ∀ name value, argument ≠ .option name value :=
        fun name value heq => hoption ⟨name, value, heq⟩
      cases hskips : waiting.skips argument with
      | true =>
        rw [written_of_skips hskips] at h
        obtain ⟨hsources, hfits⟩ := ih hdeclared h
        exact ⟨hsources.trans (withoutSeparators_of_skips hskips).symm, hfits⟩
      | false =>
        rw [written_value hskips hvalue] at h
        obtain ⟨found, hfound, h⟩ := ok_of_bind h
        cases hafter : written parsers contract found.2 .nothing rest with
        | error error => rw [hafter] at h; cases h
        | ok after =>
          rw [hafter] at h
          cases h
          have hnothing : Waiting.nothing.Declared contract := trivial
          exact (tells_writtenValue hdeclared hfound).append (ih hnothing hafter)

end Completeness

end OnoSendai.Command
