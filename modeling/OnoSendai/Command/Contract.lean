import OnoSendai.Value.Units

/-!
# What a command declares

A command declares the parameters it takes: selectors, which are written as positions, and options,
which are written by name. Every parameter has a declared type, and a word of the command line is
read as a value of that type.
-/

namespace OnoSendai.Command

/-! ### Integers -/

/-- The number that digits of a base up to sixteen stand for. -/
def radixDigits (radix : ℕ) (digits : List Char) : Option ℕ :=
  if digits.isEmpty then none
  else
    digits.foldlM (fun number digit =>
      ((hexDigitValue digit).filter (· < radix)).map (radix * number + ·)) 0

/-- A signed number of 128 bits in a base, as the standard library reads one. -/
def fromStrRadix (radix : ℕ) : List Char → Option ℤ
  | '-' :: digits => ((radixDigits radix digits).filter (· ≤ 2 ^ 127)).map fun number => -number
  | '+' :: digits | digits => ((radixDigits radix digits).filter (· < 2 ^ 127)).map Int.ofNat

/-- Reads an integer: decimal, hexadecimal or binary, with separators and an optional sign. -/
def parseInteger (text : String) : Option ℤ :=
  let signed := unsigned text.toList
  let cleaned := signed.2.filter (· ≠ '_')
  let magnitude :=
    match cleaned with
    | '0' :: 'x' :: hex => fromStrRadix 16 hex
    | '0' :: 'b' :: binary => fromStrRadix 2 binary
    | _ =>
      if cleaned.isEmpty || !cleaned.all Char.isDigit then none
      else parseI128 (String.ofList cleaned)
  -- The least integer is its own negation.
  magnitude.map fun number => if signed.1 && number ≠ -2 ^ 127 then -number else number

/-! ### Declared types -/

/-- The declared type of a parameter. -/
inductive DeclaredType
  | bool
  | int
  | float
  | string
  | path
  | duration
  | byteSize
  | timestamp
  | port
  | ip
  | ipNetwork
  | record
  | value
  | list (inner : DeclaredType)
  | ref (schema : String)
deriving DecidableEq

/-- The parsers of the standard library and of the calendar library. -/
structure TextParsers where
  float : String → Option UInt64
  timestamp : String → Option ℤ
  ip : String → Option IpAddr

/-- The text before the last slash, and the text behind it. -/
def rsplitSlash (text : List Char) : Option (List Char × List Char) :=
  if '/' ∈ text then
    some ((text.reverse.dropWhile (· ≠ '/')).tail.reverse, (text.reverse.takeWhile (· ≠ '/')).reverse)
  else
    none

/-- The greatest length of a prefix of an address. -/
def maxPrefix : IpAddr → ℕ
  | .v4 _ => 32
  | .v6 _ => 128

/-- Reads an address with the length of its prefix. -/
def parseIpNetwork (parsers : TextParsers) (text : String) : Except ErrorValue (IpAddr × ℕ) :=
  let error : ErrorValue :=
    { code := .other "type.mismatch", message := "\x60" ++ text ++ "\x60 is not an IP network" }
  match rsplitSlash text.toList with
  | none => .error error
  | some (address, length) =>
    match parsers.ip (String.ofList address), parseUnsigned 8 (String.ofList length) with
    | some address, some length =>
      if maxPrefix address < length then
        .error
          { code := .other "type.mismatch"
            message := "a /" ++ toString length ++ " prefix does not fit a " ++
              toString (maxPrefix address) ++ "-bit address" }
      else
        .ok (address, length)
    | _, _ => .error error

namespace DeclaredType

/-- The spelling of the type. -/
def name : DeclaredType → String
  | bool => "bool"
  | int => "int"
  | float => "float"
  | string => "string"
  | path => "path"
  | duration => "duration"
  | byteSize => "bytesize"
  | timestamp => "timestamp"
  | port => "port"
  | ip => "ip"
  | ipNetwork => "ipnetwork"
  | record => "record"
  | value => "value"
  | list inner => "list<" ++ inner.name ++ ">"
  | ref schema => "ref<" ++ schema ++ ">"

/-- Whether the presence of an option is enough for a value of the type. -/
def isFlag (declared : DeclaredType) : Bool :=
  declared = bool

/-- The error for a text that is no value of the type. -/
def mismatch (declared : DeclaredType) (text : String) : ErrorValue where
  code := .other "type.mismatch"
  message := "\x60" ++ text ++ "\x60 is not a valid \x60" ++ declared.name ++ "\x60"

/-- Reads the exact text of a word as a value of the type. -/
def coerce (parsers : TextParsers) : DeclaredType → String → Except ErrorValue Value
  | bool, text =>
    if text = "true" then .ok (.bool true)
    else if text = "false" then .ok (.bool false)
    else .error (mismatch bool text)
  | int, text =>
    match parseInteger text with
    | some number => .ok (.int number)
    | none => .error (mismatch int text)
  | float, text =>
    match parsers.float text with
    | some bits => .ok (.float bits)
    | none => .error (mismatch float text)
  | string, text => .ok (.string text)
  | value, text => .ok (.string text)
  | path, text => .ok (.path text.toUTF8.toList)
  | duration, text =>
    match Duration.parse text with
    | .ok span => .ok (.duration span.nanoseconds)
    | .error error => .error error
  | byteSize, text =>
    match ByteSize.parse text with
    | .ok size => .ok (.byteSize size.bytes)
    | .error error => .error error
  | timestamp, text =>
    match parsers.timestamp text with
    | some instant => .ok (.timestamp instant)
    | none => .error (mismatch timestamp text)
  | port, text =>
    match parseUnsigned 16 text with
    | some number => .ok (.port (.ofNat number))
    | none => .error (mismatch port text)
  | ip, text =>
    match parsers.ip text with
    | some address => .ok (.ip address)
    | none => .error (mismatch ip text)
  | ipNetwork, text =>
    match parseIpNetwork parsers text with
    | .ok network => .ok (.ipNetwork network.1 network.2)
    | .error error => .error error
  | record, text => .error (mismatch record text)
  | list inner, text =>
    match (text.toList.splitOn ',').mapM fun item =>
        inner.coerce parsers (String.ofList (trim item)) with
    | .ok items => .ok (.list items)
    | .error error => .error error
  | ref _, text => .ok (.string text)

theorem mapM_ne_nil {α β : Type} {read : α → Except ErrorValue β} {parts : List α}
    {items : List β} (hne : parts ≠ []) (h : parts.mapM read = .ok items) : items ≠ [] := by
  obtain ⟨first, rest, rfl⟩ := List.exists_cons_of_ne_nil hne
  rw [List.mapM_cons] at h
  rintro rfl
  cases hfirst : read first with
  | error error => simp [hfirst, bind, Except.bind] at h
  | ok item =>
    cases hrest : rest.mapM read with
    | error error => simp [hfirst, hrest, bind, Except.bind] at h
    | ok others => simp [hfirst, hrest, bind, Except.bind, pure, Except.pure] at h

/-- **No word is lost to an empty list.** A word is never read as a list of no items. -/
theorem coerce_ne_nil {parsers : TextParsers} {declared : DeclaredType} {text : String} {v : Value}
    (h : declared.coerce parsers text = .ok v) : v ≠ .list [] := by
  rintro rfl
  cases declared with
  | list inner =>
    rw [coerce] at h
    split at h
    · rename_i items hitems
      obtain rfl : items = [] := by simpa using h
      exact mapM_ne_nil (List.splitOn_ne_nil ',' text.toList) hitems rfl
    · cases h
  | bool =>
    rw [coerce] at h
    split_ifs at h <;> cases h
  | string | path | value | ref | record => cases h
  | int | float | duration | byteSize | timestamp | port | ip | ipNetwork =>
    rw [coerce] at h
    split at h <;> cases h

end DeclaredType

/-! ### Commands -/

/-- How the arguments of a command are read. -/
inductive ArgumentMode
  | words
  | expression

/-- One selector or option of a command. -/
structure ParameterSpec where
  name : String
  declaredType : DeclaredType
  repeatable : Bool
  optionalValue : Bool
  defaultValue : Option Value

/-- Whether the parameter may be written more than once. -/
def ParameterSpec.isRepeatable (spec : ParameterSpec) : Bool :=
  spec.repeatable ||
    match spec.declaredType with
    | .list _ => true
    | _ => false

/-- What a command declares about its arguments and its provider. -/
structure CommandContract where
  verb : String
  target : Option String
  argumentMode : ArgumentMode
  providerCapability : Option String
  selectors : List ParameterSpec
  options : List ParameterSpec

namespace CommandContract

/-- The command as it is written. -/
def spelling (contract : CommandContract) : String :=
  match contract.target with
  | some target => contract.verb ++ " " ++ target
  | none => contract.verb

/-- An option by its name. -/
def option (contract : CommandContract) (name : String) : Option ParameterSpec :=
  contract.options.find? (·.name = name)

end CommandContract

end OnoSendai.Command
