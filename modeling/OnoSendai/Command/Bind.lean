import OnoSendai.Command.Contract

/-!
# Binding the arguments of a command

The arguments of a stage are bound to what the command declares. A word goes to the first selector
that is still free and whose type it fits; an option takes its value with the word that names it, or
from the argument behind it. What is written more than once is collapsed into one binding, and what
is not written gets its declared default.
-/

namespace OnoSendai.Command

variable {E : Type}

/-! ### Arguments -/

/-- One part of a string literal. -/
inductive StrPart (E : Type)
  | text (text : String)
  | expr (expression : E)

/-- An expression: a string literal, or one of the kinds that are left unevaluated. -/
inductive Expr (E : Type)
  | str (parts : List (StrPart E))
  | other (expression : E)

/-- The text of a string literal that interpolates nothing. -/
def literalText : List (StrPart E) → Option String
  | [] => some ""
  | [.text text] => some text
  | _ => none

/-- An argument of a stage. -/
inductive Argument (E : Type)
  | word (text : String)
  | option (name : String) (value : Option (Expr E))
  | value (expression : Expr E)
  | error

namespace Argument

/-- Whether the argument is the bare sign of an assignment. -/
def isSeparator : Argument E → Bool
  | word text => text = "="
  | _ => false

/-- The argument as errors name it. -/
def describe : Argument E → String
  | word text => text
  | option name _ => "--" ++ name
  | value (.str parts) => (literalText parts).getD "a string"
  | value (.other _) => "an expression"
  | error => "an unreadable argument"

end Argument

/-! ### Bindings -/

/-- What one selector or option is bound to. -/
inductive Binding (E : Type)
  | value (value : Value)
  | expressions (expressions : List (Expr E))

/-- The value, where the binding is one. -/
def Binding.value? : Binding E → Option Value
  | value v => some v
  | expressions _ => none

/-- The selectors and options of one stage, resolved against what the command declares. -/
structure BoundArguments (E : Type) where
  spelling : String
  selectors : List (String × Binding E)
  options : List (String × Binding E)
  ambient : List (String × Value)
  declaredSelectors : List ParameterSpec
  declaredOptions : List ParameterSpec
  directory : Option (List UInt8)

/-- What a name is bound to. -/
def findBinding (entries : List (String × Binding E)) (name : String) : Option (Binding E) :=
  (entries.find? (·.1 = name)).map (·.2)

/-- Adds a writing of a parameter to those there are. -/
def push {β : Type} (entries : List (String × List β)) (name : String) (binding : β) :
    List (String × List β) :=
  match entries with
  | [] => [(name, [binding])]
  | (bound, bindings) :: rest =>
    if bound = name then (bound, bindings ++ [binding]) :: rest
    else (bound, bindings) :: push rest name binding

/-- The values among some bindings, with the items of lists for the lists. -/
def valuesOf (bindings : List (Binding E)) : List Value :=
  bindings.flatMap fun
    | .value (.list items) => items
    | .value v => [v]
    | .expressions _ => []

/-- The expressions among some bindings. -/
def expressionsOf (bindings : List (Binding E)) : List (Expr E) :=
  bindings.flatMap fun
    | .value _ => []
    | .expressions written => written

/-- The writings of one parameter as one binding. -/
def collapse : List (Binding E) → Binding E
  | [binding] => binding
  | bindings =>
    if (expressionsOf bindings).isEmpty then .value (.list (valuesOf bindings))
    else .expressions (expressionsOf bindings)

/-- Binds a declared default where its parameter is not bound. -/
def fillDefault (bound : List (String × Binding E)) (spec : ParameterSpec) :
    List (String × Binding E) :=
  match spec.defaultValue with
  | some default' =>
    if bound.any (·.1 = spec.name) then bound else bound ++ [(spec.name, .value default')]
  | none => bound

/-- Collapses what is written more than once, and fills in the declared defaults. -/
def merge (entries : List (String × List (Binding E))) (declared : List ParameterSpec) :
    List (String × Binding E) :=
  declared.foldl fillDefault (entries.map fun entry => (entry.1, collapse entry.2))

/-! ### One argument -/

namespace CommandContract

variable (parsers : TextParsers) (contract : CommandContract)

/-- Reads a text as a value of the type of a parameter. -/
def coerce (spec : ParameterSpec) (text : String) : Except ErrorValue (Binding E) :=
  match spec.declaredType.coerce parsers text with
  | .ok v => .ok (.value v)
  | .error error =>
    .error
      { code := error.code
        message := "\x60" ++ spec.name ++ "\x60 of \x60" ++ contract.spelling ++ "\x60: " ++
          error.message }

/-- Binds an expression. A quoted text that stands for itself is read like a word. -/
def bindExpression (spec : ParameterSpec) (expression : Expr E) : Except ErrorValue (Binding E) :=
  match contract.argumentMode, expression with
  | .words, .str parts =>
    match literalText parts with
    | some text => contract.coerce parsers spec text
    | none => .ok (.expressions [expression])
  | _, _ => .ok (.expressions [expression])

/-- Binds an argument to a parameter. -/
def bindArgument (spec : ParameterSpec) : Argument E → Except ErrorValue (Binding E)
  | .word text => contract.coerce parsers spec text
  | .value expression => contract.bindExpression parsers spec expression
  | .option name _ =>
    .error
      { code := .other "type.mismatch"
        message := "\x60--" ++ name ++ "\x60 of \x60" ++ contract.spelling ++
          "\x60 is an option, not a value for \x60" ++ spec.name ++ "\x60" }
  | .error =>
    .error
      { code := .other "parse.syntax"
        message := "an argument of \x60" ++ contract.spelling ++ "\x60 could not be read" }

/-- The selectors an argument may go to: those that are free, then those that may be written
again. -/
def candidates (used : List Bool) : List (ParameterSpec × ℕ) :=
  contract.selectors.zipIdx.filter (fun candidate => !used.getD candidate.2 false) ++
    contract.selectors.zipIdx.filter fun candidate =>
      used.getD candidate.2 false && candidate.1.isRepeatable

/-- What a candidate is bound to, where the argument fits it. -/
def fit (argument : Argument E) (candidate : ParameterSpec × ℕ) :
    Option (ParameterSpec × ℕ × Binding E) :=
  match contract.bindArgument parsers candidate.1 argument with
  | .ok binding => some (candidate.1, candidate.2, binding)
  | .error _ => none

/-- The error for an argument that fits no candidate: the error of the one there is, or an error
that names them all, with the code of the first. -/
def fitError (argument : Argument E) (candidates : List (ParameterSpec × ℕ)) : ErrorValue :=
  match candidates with
  | [] =>
    { code := .other "type.mismatch"
      message := "\x60" ++ contract.spelling ++ "\x60 takes " ++
        toString contract.selectors.length ++ " selector(s), and \x60" ++ argument.describe ++
        "\x60 is one too many" }
  | first :: rest =>
    match contract.bindArgument parsers first.1 argument with
    | .ok _ =>
      { code := .other "type.mismatch"
        message := "\x60" ++ contract.spelling ++ "\x60 binds nothing" }
    | .error error =>
      if rest.isEmpty then error
      else
        { code := error.code
          message := "\x60" ++ contract.spelling ++ "\x60: \x60" ++ argument.describe ++
            "\x60 fits none of its selectors — " ++
            ", ".intercalate (candidates.map fun candidate =>
              "\x60" ++ candidate.1.name ++ "\x60 (" ++ candidate.1.declaredType.name ++ ")") }

/-- The selector a positional argument goes to, its position, and what it is bound to. -/
def positionalBinding (used : List Bool) (argument : Argument E) :
    Except ErrorValue (ParameterSpec × ℕ × Binding E) :=
  match (contract.candidates used).findSome? (contract.fit parsers argument) with
  | some found => .ok found
  | none => .error (contract.fitError parsers argument (contract.candidates used))

/-- The error for an option without its value. -/
def missingOptionValue (spec : ParameterSpec) : ErrorValue where
  code := .other "type.mismatch"
  message := "\x60--" ++ spec.name ++ "\x60 of \x60" ++ contract.spelling ++ "\x60 needs a \x60" ++
    spec.declaredType.name ++ "\x60 value, and none followed it"

/-- The error for an option the command does not declare. -/
def unknownOption (name : String) : ErrorValue where
  code := .typeUnknownField
  message := "\x60" ++ contract.spelling ++ "\x60 has no option \x60--" ++ name ++ "\x60"

end CommandContract

/-! ### The loop -/

/-- What the loop over the arguments keeps: the writings so far, the selectors that are used, and
the option that waits for a value, for a value it can do without, or for a flag. -/
structure BindState (E : Type) where
  selectors : List (String × List (Binding E))
  options : List (String × List (Binding E))
  used : List Bool
  pending : Option ParameterSpec
  pendingFlag : Option ParameterSpec
  pendingOptional : Option ParameterSpec

namespace BindState

/-- The state with a writing of an option. -/
def pushOption (state : BindState E) (spec : ParameterSpec) (binding : Binding E) : BindState E :=
  { state with options := push state.options spec.name binding }

/-- The state when the option that can do without a value does. -/
def settleOptional (state : BindState E) : BindState E :=
  match state.pendingOptional with
  | some spec => { state.pushOption spec (.value (.bool true)) with pendingOptional := none }
  | none => state

/-- The state when the flag is set. -/
def settleFlag (state : BindState E) : BindState E :=
  match state.pendingFlag with
  | some spec => { state.pushOption spec (.value (.bool true)) with pendingFlag := none }
  | none => state

end BindState

/-- The truth value a word is the literal of. -/
def parseBool : String → Option Bool
  | "true" => some true
  | "false" => some false
  | _ => none

section Loop

variable (parsers : TextParsers) (contract : CommandContract)

/-- The loop at an option. -/
def bindOption (state : BindState E) (name : String) (value : Option (Expr E)) :
    Except ErrorValue (BindState E) :=
  match state.pending with
  | some spec => .error (contract.missingOptionValue spec)
  | none =>
    let state := state.settleOptional.settleFlag
    match contract.option name with
    | none => .error (contract.unknownOption name)
    | some spec =>
      match value with
      | some expression =>
        match contract.bindExpression parsers spec expression with
        | .ok binding => .ok (state.pushOption spec binding)
        | .error error => .error error
      | none =>
        if spec.optionalValue then .ok { state with pendingOptional := some spec }
        else if spec.declaredType.isFlag then .ok { state with pendingFlag := some spec }
        else .ok { state with pending := some spec }

/-- The loop at an argument that goes to a selector. -/
def bindPositional (state : BindState E) (argument : Argument E) :
    Except ErrorValue (BindState E) :=
  match contract.positionalBinding parsers state.used argument with
  | .ok (spec, index, binding) =>
    .ok { state with
      used := state.used.set index true
      selectors := push state.selectors spec.name binding }
  | .error error => .error error

/-- The loop at an argument a flag may be waiting for. -/
def bindAfterFlag (state : BindState E) (argument : Argument E) : Except ErrorValue (BindState E) :=
  match state.pendingFlag, argument with
  | some spec, .word text =>
    match parseBool text with
    | some explicit =>
      .ok { state.pushOption spec (.value (.bool explicit)) with pendingFlag := none }
    | none => bindPositional parsers contract state.settleFlag argument
  | _, _ => bindPositional parsers contract state.settleFlag argument

/-- The loop at an argument an option that can do without a value may be waiting for. -/
def bindAfterOptional (state : BindState E) (argument : Argument E) :
    Except ErrorValue (BindState E) :=
  match state.pendingOptional with
  | some spec =>
    match contract.bindArgument parsers spec argument with
    | .ok binding => .ok { state.pushOption spec binding with pendingOptional := none }
    | .error _ => bindAfterFlag parsers contract state.settleOptional argument
  | none => bindAfterFlag parsers contract state argument

/-- The loop at a word or a value. -/
def bindValue (state : BindState E) (argument : Argument E) : Except ErrorValue (BindState E) :=
  match state.pending with
  | some spec =>
    match contract.bindArgument parsers spec argument with
    | .ok binding => .ok { state.pushOption spec binding with pending := none }
    | .error error => .error error
  | none => bindAfterOptional parsers contract state argument

/-- One round of the loop. -/
def bindStep (state : BindState E) (argument : Argument E) : Except ErrorValue (BindState E) :=
  if state.pending.isNone && state.pendingOptional.isNone && argument.isSeparator then .ok state
  else
    match argument with
    | .option name value => bindOption parsers contract state name value
    | argument => bindValue parsers contract state argument

/-- The writings when the arguments are at an end. -/
def finish (state : BindState E) : Except ErrorValue (BindState E) :=
  match state.pending with
  | some spec => .error (contract.missingOptionValue spec)
  | none => .ok state.settleOptional.settleFlag

/-- Where the loop begins. -/
def BindState.start (contract : CommandContract) : BindState E where
  selectors := []
  options := []
  used := List.replicate contract.selectors.length false
  pending := none
  pendingFlag := none
  pendingOptional := none

/-- Binds the arguments of a stage to the selectors and options of a command. -/
def CommandContract.bind (arguments : List (Argument E)) : Except ErrorValue (BoundArguments E) := do
  let state ← arguments.foldlM (bindStep parsers contract) (.start contract)
  let state ← finish contract state
  return {
    spelling := contract.spelling
    selectors := merge state.selectors contract.selectors
    options := merge state.options contract.options
    ambient := []
    declaredSelectors := contract.selectors
    declaredOptions := contract.options
    directory := none }

end Loop

/-! ### The query -/

/-- What a provider is asked. -/
structure Query where
  target : String
  verb : String
  selectors : List (String × Value)
  options : List (String × Value)
  directory : Option (List UInt8)

/-- The values among some bindings, under their names. -/
def boundValues (entries : List (String × Binding E)) : List (String × Value) :=
  entries.filterMap fun entry => entry.2.value?.map fun v => (entry.1, v)

/-- A provider query built from bound arguments. -/
def CommandContract.query (contract : CommandContract) (arguments : BoundArguments E) :
    Except ErrorValue Query :=
  match contract.target with
  | none =>
    .error
      { code := .other "resolve.target_not_found"
        message := "\x60" ++ contract.spelling ++ "\x60 has no target and asks no provider" }
  | some target =>
    .ok
      { target := target
        verb := contract.verb
        selectors := boundValues arguments.selectors ++ arguments.ambient
        options := boundValues arguments.options
        directory := arguments.directory }

end OnoSendai.Command
