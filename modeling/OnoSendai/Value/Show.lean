import OnoSendai.Value.Equality

/-!
# Values as text

The compact rendering of a value (`Display` of `ono_value::Value`), which diagnostics use, and
which stands in for a value where a stage of a pipeline needs a key it can look up
(`ono_pipeline::order`): the name of the value's kind and its rendering.

Sizes and spans are rendered for a person, in the largest unit that fits. The libraries print
numbers in floating point, instants, addresses and paths, and a schema names the fields that
identify a record.
-/

namespace OnoSendai

/-- The fields that identify the records of a schema, and those that join them where one of the
first is not known. -/
structure SchemaIdentity where
  identity : List String
  fallback : List String

/-- What the libraries print, and the identity of schemas. -/
structure Printers where
  float : UInt64 → String
  twoPlaces : UInt64 → String
  timestamp : ℤ → String
  path : List UInt8 → String
  address : IpAddr → String
  identity : Schema → SchemaIdentity

/-! ### Scalars -/

/-- A number of two digits at least. -/
def twoDigits (number : ℕ) : String :=
  if number < 10 then "0" ++ toString number else toString number

/-- The bytes of a universally unique identifier. -/
def uuidBytes (bits : BitVec 128) : List UInt8 :=
  (List.range 16).map fun index => UInt8.ofNat (bits.toNat / 2 ^ (8 * (15 - index)))

/-- A universally unique identifier as text. -/
def uuidText (bits : BitVec 128) : String :=
  let bytes := uuidBytes bits
  hexText (bytes.take 4) ++ "-" ++ hexText ((bytes.drop 4).take 2) ++ "-" ++
    hexText ((bytes.drop 6).take 2) ++ "-" ++ hexText ((bytes.drop 8).take 2) ++ "-" ++
    hexText (bytes.drop 10)

section Display

variable (printers : Printers) (powi : ℕ → UInt64)

/-- The largest binary unit in which a size is no fraction below one. -/
def humanUnit (bytes : ℕ) : ByteUnit :=
  (ByteUnit.binaryDescending.find? fun unit => unit.factor ≤ bytes).getD .b

/-- A size for a person. -/
def ByteSize.human (bytes : ℕ) : String :=
  if humanUnit bytes = .b then toString bytes ++ " B"
  else
    printers.twoPlaces (Binary64.div (Binary64.ofInt bytes)
      (Binary64.ofInt (humanUnit bytes).factor)) ++ " " ++ (humanUnit bytes).suffix

/-- A span without its sign for a person. -/
def humanSpan (nanos : ℕ) : String :=
  if nanos = 0 then "0s"
  else if DurationUnit.days.inNanoseconds ≤ nanos then
    toString (nanos / DurationUnit.days.inNanoseconds) ++ "d " ++
      twoDigits (nanos % DurationUnit.days.inNanoseconds / DurationUnit.hours.inNanoseconds) ++ "h"
  else if DurationUnit.hours.inNanoseconds ≤ nanos then
    toString (nanos / DurationUnit.hours.inNanoseconds) ++ "h " ++
      twoDigits (nanos % DurationUnit.hours.inNanoseconds / DurationUnit.minutes.inNanoseconds) ++
      "m"
  else if DurationUnit.minutes.inNanoseconds ≤ nanos then
    toString (nanos / DurationUnit.minutes.inNanoseconds) ++ "m " ++
      twoDigits (nanos % DurationUnit.minutes.inNanoseconds / DurationUnit.seconds.inNanoseconds) ++
      "s"
  else if DurationUnit.seconds.inNanoseconds ≤ nanos then
    printers.twoPlaces (Binary64.div (Binary64.ofInt nanos)
      (Binary64.ofInt DurationUnit.seconds.inNanoseconds)) ++ "s"
  else if DurationUnit.milliseconds.inNanoseconds ≤ nanos then
    toString (nanos / DurationUnit.milliseconds.inNanoseconds) ++ "ms"
  else if DurationUnit.microseconds.inNanoseconds ≤ nanos then
    toString (nanos / DurationUnit.microseconds.inNanoseconds) ++ "us"
  else toString nanos ++ "ns"

/-- A span for a person. -/
def Duration.human (nanoseconds : ℤ) : String :=
  (if nanoseconds < 0 then "-" else "") ++ humanSpan printers nanoseconds.natAbs

/-! ### Records -/

/-- The fields that identify a record: those its schema names, and the ones that join them where
the record does not know one of the first. -/
def identityFor (record : RecordValue) : List String :=
  let declared := printers.identity record.schema
  if declared.fallback.isEmpty then declared.identity
  else if declared.identity.all fun name => (record.get name).any fun value => !value.isNull then
    declared.identity
  else declared.identity ++ declared.fallback

/-- The text of a record's field, given the texts of its values. -/
def fieldText (schema : Schema) (fields : List String) (extra : List (String × String))
    (name : String) : String :=
  (match schema.positionOf name with
    | some index => fields[index]?
    | none => extra.lookup name).getD "null"

/-- Entries of a map as text. -/
def mapText (entries : List (String × String)) : String :=
  "\x7b" ++ ", ".intercalate (entries.map fun entry => entry.1 ++ ": " ++ entry.2) ++ "\x7d"

namespace Value

mutual

/-- A compact rendering of a value. -/
def display : Value → String
  | .null => "null"
  | .bool flag => if flag then "true" else "false"
  | .int number => toString number
  | .float bits => printers.float bits
  | .decimal mantissa scale => (Decimal.ofParts mantissa scale).toText
  | .string text => text
  | .bytes content => hexText content
  | .path place => printers.path place
  | .timestamp instant => printers.timestamp instant
  | .duration nanoseconds => Duration.human printers nanoseconds
  | .byteSize size => ByteSize.human printers size
  | .percent bits => printers.float bits ++ "%"
  | .regex source => source
  | .uuid bits => uuidText bits
  | .ip address => printers.address address
  | .ipNetwork address prefixLen => printers.address address ++ "/" ++ toString prefixLen
  | .port number => toString number.toNat
  | .list items => "[" ++ ", ".intercalate (displayList items) ++ "]"
  | .map entries => mapText (displayEntries entries)
  | .record schema fields extra provenance =>
    schema.id.text ++ " " ++
      mapText ((identityFor printers ⟨schema, fields, extra, provenance⟩).eraseDups.map fun name =>
        (name, fieldText schema (displayList fields) (displayEntries extra) name))
  | .error failure _ => displayError failure
termination_by structural value => value

/-- The renderings of values. -/
def displayList : List Value → List String
  | [] => []
  | item :: items => display item :: displayList items
termination_by structural value => value

/-- The renderings of the values of a map. -/
def displayEntries : List (String × Value) → List (String × String)
  | [] => []
  | (key, value) :: entries => (key, display value) :: displayEntries entries
termination_by structural value => value

/-- The rendering of what an error is about. -/
def displayRef : Option (ValueRef Value) → String
  | none => ""
  | some (.path place) => ": " ++ printers.path place
  | some (.name name) => ": " ++ name
  | some (.object schema identity) => ": " ++ schema.text ++ " " ++ mapText (displayEntries identity)
termination_by structural value => value

/-- An error in one line, with the line of its help. -/
def displayError : ErrorDetail Value → String
  | ⟨failure, target, help, _, _⟩ =>
    failure.message ++ displayRef target ++ help.elim "" ("\n" ++ ·)
termination_by structural value => value

end

end Value

/-- What stands in for a value used as a key: its kind, and its rendering. -/
def keyRepr (value : Value) : String :=
  value.typeName ++ "\x01" ++ value.display printers

end Display

end OnoSendai
