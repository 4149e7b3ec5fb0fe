import OnoSendai.Kuang.Json
import OnoSendai.Value.Schema

/-!
# Decoding values from JSON

The lossless encoding of values as JSON, read back: a semantic scalar, a record or an error is an
object with one tagged member, and every other object is a map. The texts of scalars are read by
parsers of their own, and a schema is looked up in a registry; the decoder is given both.
-/

namespace OnoSendai

theorem ok_of_bind {ε α β : Type} {first : Except ε α} {next : α → Except ε β} {result : β}
    (h : (first >>= next) = .ok result) : ∃ value, first = .ok value ∧ next value = .ok result := by
  cases first with
  | error error => cases h
  | ok value => exact ⟨value, rfl, h⟩

/-! ### Texts -/

/-- The number that decimal digits stand for. -/
def decimalDigits (digits : List Char) : Option Nat :=
  if digits.isEmpty || !digits.all Char.isDigit then none
  else some (digits.foldl (fun number digit => 10 * number + (digit.toNat - 48)) 0)

/-- An unsigned decimal number, as the standard library reads one of a fixed width. -/
def parseUnsigned (width : Nat) (text : String) : Option Nat :=
  match text.toList with
  | '+' :: digits | digits => (decimalDigits digits).filter (· < 2 ^ width)

/-- A signed decimal number, as the standard library reads one of 128 bits. -/
def parseI128 (text : String) : Option Int :=
  match text.toList with
  | '-' :: digits => ((decimalDigits digits).filter (· ≤ 2 ^ 127)).map fun number => -number
  | '+' :: digits | digits => ((decimalDigits digits).filter (· < 2 ^ 127)).map Int.ofNat

/-- The value of a hexadecimal digit. -/
def hexDigitValue (digit : Char) : Option Nat :=
  if digit.isDigit then some (digit.toNat - 48)
  else if 'a' ≤ digit ∧ digit ≤ 'f' then some (digit.toNat - 87)
  else if 'A' ≤ digit ∧ digit ≤ 'F' then some (digit.toNat - 55)
  else none

/-- The bytes a hexadecimal text stands for. -/
def hexDecode : List Char → Option (List UInt8)
  | [] => some []
  | [_] => none
  | high :: low :: rest => do
    let high ← hexDigitValue high
    let low ← hexDigitValue low
    let bytes ← hexDecode rest
    return UInt8.ofNat (16 * high + low) :: bytes

/-- The text as its bytes. -/
def bytesOf (text : String) : List UInt8 :=
  text.toUTF8.toList

/-- What stands before and after the last occurrence of a character. -/
def splitLast (separator : Char) (text : List Char) : Option (List Char × List Char) :=
  let after := (text.reverse.takeWhile (· ≠ separator)).reverse
  if separator ∈ text then some (text.take (text.length - after.length - 1), after) else none

/-- Reads a schema id. -/
def SchemaId.parse (text : String) : Except ErrorValue SchemaId :=
  let invalid : ErrorValue :=
    { code := .other "parse.syntax"
      message := "`" ++ text ++ "` is not a schema id; expected `name/version`" }
  match splitLast '/' text.toList with
  | none => .error invalid
  | some (name, version) =>
    if name = [] then .error invalid
    else
      match parseUnsigned 32 (String.ofList version) with
      | some version => .ok ⟨String.ofList name, version⟩
      | none => .error invalid

/-! ### Scalars -/

/-- What the decoder is given: the parsers of the scalars with a grammar of their own, the number
nearest to an integer, the closed list of error codes, and the registered schemas. -/
structure Readers where
  decimal : String → Except ErrorValue (Int × Nat)
  timestamp : String → Option Int
  duration : String → Except ErrorValue Int
  regex : String → Except ErrorValue String
  uuid : String → Except ErrorValue (BitVec 128)
  ip : String → Option IpAddr
  ipNetwork : String → Except ErrorValue (IpAddr × Nat)
  nearest : Int → UInt64
  errorCode : String → Option ErrorCode
  schema : SchemaId → Option Schema

/-- The failure of a tagged value that does not hold what its tag promises. -/
def badTag (tag : String) : ErrorValue where
  code := .other "type.mismatch"
  message := "`" ++ tag ++ "` does not hold what its tag promises"

/-- A value that is there, or the failure of its tag. -/
def orBadTag {α : Type} (tag : String) (value : Option α) : Except ErrorValue α :=
  value.elim (.error (badTag tag)) .ok

/-- The binary floating-point number a number stands for. -/
def Number.asF64 (readers : Readers) : Number → UInt64
  | .float bits => bits
  | .posInt number => readers.nearest number.toNat
  | .negInt number => readers.nearest number.toInt

/-- A bare number: an integer, or a binary floating-point number. -/
def numberFromJson (readers : Readers) (number : Number) : Value :=
  match number.asInt with
  | some integer => .int integer
  | none => .float (number.asF64 readers)

/-- The non-finite number a name stands for. -/
def nonFiniteValue (name : String) : Option UInt64 :=
  if name = "nan" then some 0x7ff8000000000000
  else if name = "inf" then some 0x7ff0000000000000
  else if name = "-inf" then some 0xfff0000000000000
  else none

/-- Reads a payload that has to be a text. -/
def ofText (read : String → Except ErrorValue Value) (tag : String) (payload : Json) :
    Except ErrorValue Value :=
  (orBadTag tag payload.asStr).bind read

/-- The payload of a byte size. -/
def byteSizeFromJson (tag : String) : Json → Except ErrorValue Value
  | .number number => (orBadTag tag number.asU64).map fun bytes => .byteSize bytes.toNat
  | .string digits => (orBadTag tag (parseUnsigned 128 digits)).map .byteSize
  | _ => .error (badTag tag)

/-- The payload of a percentage. -/
def percentFromJson (readers : Readers) (tag : String) : Json → Except ErrorValue Value
  | .number number => .ok (.percent (number.asF64 readers))
  | .string name => (orBadTag tag (nonFiniteValue name)).map .percent
  | _ => .error (badTag tag)

/-- The payload of a port. -/
def portFromJson (tag : String) (payload : Json) : Except ErrorValue Value :=
  (orBadTag tag (payload.asU64.filter (·.toNat < 2 ^ 16))).map fun port =>
    .port (UInt16.ofNat port.toNat)

/-- The scalar that a payload stands for under each tag. -/
def scalars (readers : Readers) : List (String × (String → Json → Except ErrorValue Value)) :=
  [("$int", fun tag => ofText (fun text => (orBadTag tag (parseI128 text)).map .int) tag),
    ("$float", fun tag => ofText (fun text => (orBadTag tag (nonFiniteValue text)).map .float) tag),
    ("$decimal", ofText fun text => (readers.decimal text).map fun read => .decimal read.1 read.2),
    ("$bytes", fun tag =>
      ofText (fun text => (orBadTag tag (hexDecode text.toList)).map .bytes) tag),
    ("$path", ofText fun text => .ok (.path (bytesOf text))),
    ("$path_bytes", fun tag =>
      ofText (fun text => (orBadTag tag (hexDecode text.toList)).map .path) tag),
    ("$timestamp", fun tag =>
      ofText (fun text => (orBadTag tag (readers.timestamp text)).map .timestamp) tag),
    ("$duration", ofText fun text => (readers.duration text).map .duration),
    ("$bytesize", byteSizeFromJson),
    ("$percent", percentFromJson readers),
    ("$regex", ofText fun text => (readers.regex text).map .regex),
    ("$uuid", ofText fun text => (readers.uuid text).map .uuid),
    ("$ip", fun tag => ofText (fun text => (orBadTag tag (readers.ip text)).map .ip) tag),
    ("$ipnetwork",
      ofText fun text => (readers.ipNetwork text).map fun read => .ipNetwork read.1 read.2),
    ("$port", portFromJson)]

/-- The tags of scalars. -/
def scalarTags : List String :=
  ["$int", "$float", "$decimal", "$bytes", "$path", "$path_bytes", "$timestamp", "$duration",
    "$bytesize", "$percent", "$regex", "$uuid", "$ip", "$ipnetwork", "$port"]

/-- The scalar that a tag and a payload stand for. -/
def scalarFromJson (readers : Readers) (tag : String) (payload : Json) : Except ErrorValue Value :=
  match (scalars readers).lookup tag with
  | some read => read tag payload
  | none => .error (badTag tag)

/-! ### Provenance -/

/-- Where a record says it was observed from. -/
def linkFromJson : Json → Link
  | .object link => (Json.text link "remote").elim .onThisHost .remote
  | _ => .onThisHost

/-- The provider a provenance names. -/
def providerFromJson : Json → String
  | .object provenance => (Json.text provenance "provider").getD "unknown"
  | _ => "unknown"

/-- The provenance of a record of a schema. -/
def provenanceFromJson (readers : Readers) (payload : Json) (schema : SchemaId) :
    Except ErrorValue Provenance :=
  match payload with
  | .object provenance => do
    let recorded ← (Json.text provenance "schema").elim (.ok schema) SchemaId.parse
    let observed ← (Json.text provenance "observed").elim (.ok none) fun text =>
      (orBadTag "observed" (readers.timestamp text)).map some
    return {
      provider := providerFromJson payload
      observed := observed
      source := Json.text provenance "source"
      link := linkFromJson (Json.member provenance "link")
      schema := recorded
      confidence :=
        match Json.member provenance "confidence" with
        | .number number => some (number.asF64 readers)
        | _ => none
      adapter := none }
  | _ => .ok ⟨providerFromJson payload, none, none, .onThisHost, schema, none, none⟩

/-! ### Values -/

/-- The path a value holds. -/
def asPath : Value → Except ErrorValue (List UInt8)
  | .path path => .ok path
  | other => .error
      { code := .other "type.mismatch"
        message := "expected path but found " ++ other.typeName }

/-- Opens a record: its schema, with every field unknown, and its provenance. -/
def openRecord (readers : Readers) (members : Members) : Except ErrorValue RecordValue := do
  let text ← orBadTag "$record" (Json.text members "schema")
  let id ← SchemaId.parse text
  let schema ← (readers.schema id).elim
    (.error
      { code := .other "resolve.target_not_found"
        message := "no schema is registered as " ++ id.text }) .ok
  let provenance ← provenanceFromJson readers (Json.member members "provenance") id
  return .builder schema provenance

/-- The code and the message of an error. -/
def openError (readers : Readers) (members : Members) : Except ErrorValue ErrorValue := do
  let name ← orBadTag "$error" (Json.text members "code")
  let code ← (readers.errorCode name).elim
    (.error
      { code := .other "resolve.target_not_found"
        message := "`" ++ name ++ "` is not a known error code" }) .ok
  return ⟨code, (Json.text members "message").getD ""⟩

mutual

/-- Decodes a value. -/
def fromJson (readers : Readers) : Json → Except ErrorValue Value
  | .null => .ok .null
  | .bool flag => .ok (.bool flag)
  | .number number => .ok (numberFromJson readers number)
  | .string text => .ok (.string text)
  | .array items => do return .list (← itemsFromJson readers items)
  | .object [(tag, payload)] =>
    if tag = "$record" then recordFromJson readers payload
    else if tag = "$error" then do
      let error ← errorFromJson readers payload
      return .error error.1 error.2
    else if tag ∈ scalarTags then scalarFromJson readers tag payload
    else do return .map (← entriesFromJson readers [] [(tag, payload)])
  | .object members => do return .map (← entriesFromJson readers [] members)
termination_by json => 2 * sizeOf json

/-- Decodes the items of a list. -/
def itemsFromJson (readers : Readers) : List Json → Except ErrorValue (List Value)
  | [] => .ok []
  | item :: items => do
    let value ← fromJson readers item
    let values ← itemsFromJson readers items
    return value :: values
termination_by items => 2 * sizeOf items

/-- Decodes the entries of a map into one. -/
def entriesFromJson (readers : Readers) (map : MapValue) : Members → Except ErrorValue MapValue
  | [] => .ok map
  | (key, json) :: rest => do
    let value ← fromJson readers json
    entriesFromJson readers (mapInsert map key value) rest
termination_by members => 2 * sizeOf members

/-- Decodes the declared fields of a record into it. -/
def fieldsFromJson (readers : Readers) (record : RecordValue) :
    Members → Except ErrorValue RecordValue
  | [] => .ok record
  | (name, json) :: rest => do
    let value ← fromJson readers json
    let record ← record.set name value
    fieldsFromJson readers record rest
termination_by members => 2 * sizeOf members

/-- Decodes a record. -/
def recordFromJson (readers : Readers) : Json → Except ErrorValue Value
  | .object members => do
    let record ← openRecord readers members
    let record ← fieldsFromJson readers record (Json.inner members "fields")
    let extra ← entriesFromJson readers record.extra (Json.inner members "extra")
    return { record with extra := extra }.intoValue
  | _ => .error (badTag "$record")
termination_by json => 2 * sizeOf json
decreasing_by
  · have := Json.sizeOf_inner_le members "fields"
    simp only [Json.object.sizeOf_spec]
    omega
  · have := Json.sizeOf_inner_le members "extra"
    simp only [Json.object.sizeOf_spec]
    omega

/-- Decodes an error and the errors it was raised from. -/
def errorFromJson (readers : Readers) :
    Json → Except ErrorValue (ErrorDetail Value × List (ErrorDetail Value))
  | .object members => do
    let error ← openError readers members
    let target ← targetFromJson readers (Json.member members "target")
    let metadata ← entriesFromJson readers [] (Json.inner members "metadata")
    let causes ← causesFromJson readers (Json.member members "source")
    return (⟨error, target, Json.text members "help",
      (Json.member members "retryable").asBool, metadata⟩, causes)
  | _ => .error (badTag "$error")
termination_by json => 2 * sizeOf json
decreasing_by
  · have := Json.sizeOf_member_le members "target"
    simp only [Json.object.sizeOf_spec]
    omega
  · have := Json.sizeOf_inner_le members "metadata"
    simp only [Json.object.sizeOf_spec]
    omega
  · have := Json.sizeOf_member_le members "source"
    simp only [Json.object.sizeOf_spec]
    omega

/-- Decodes what an error is about, where it says so. -/
def targetFromJson (readers : Readers) : Json → Except ErrorValue (Option (ValueRef Value))
  | .object target => do return some (← refFromJson readers target)
  | _ => .ok none
termination_by json => 2 * sizeOf json

/-- Decodes the errors an error was raised from. -/
def causesFromJson (readers : Readers) : Json → Except ErrorValue (List (ErrorDetail Value))
  | .null => .ok []
  | source => do
    let cause ← errorFromJson readers source
    return cause.1 :: cause.2
termination_by json => 2 * sizeOf json + 1

/-- Decodes a reference. -/
def refFromJson (readers : Readers) (members : Members) : Except ErrorValue (ValueRef Value) :=
  match Json.text members "kind" with
  | some "path" => do
    let value ← fromJson readers (Json.member members "path")
    return .path (← asPath value)
  | some "name" => (orBadTag "target" (Json.text members "name")).map .name
  | some "object" => do
    let text ← orBadTag "target" (Json.text members "schema")
    let id ← SchemaId.parse text
    let identity ← entriesFromJson readers [] (Json.inner members "identity")
    return .object id identity
  | _ => .error (badTag "target")
termination_by 2 * sizeOf members + 1
decreasing_by
  · have := Json.sizeOf_member_le members "path"
    omega
  · have := Json.sizeOf_inner_le members "identity"
    omega

end

end OnoSendai
