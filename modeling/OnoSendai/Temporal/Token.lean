import Mathlib.Data.List.Sort
import OnoSendai.Lib.Labelled
import OnoSendai.Temporal.Event
import OnoSendai.Value.Show

/-!
# The text a value gives an identity

The identity of an event is a digest, to which a value gives a text of its own: the name of its kind
and its canonical text, lists in brackets, and maps and records in braces, the keys of a map in
order so that two reports of one map give one text. Nothing inside is escaped.
-/

namespace OnoSendai.Temporal

open Labelled
open List hiding map_map

/-- What the libraries print. -/
structure TokenPrinters where
  /-- The display of a binary floating-point number. -/
  float : UInt64 → String
  /-- The display of an instant. -/
  timestamp : Int → String
  /-- A path as text, or none for bytes that are no text. -/
  path : List UInt8 → Option String
  /-- The display of an Internet address. -/
  address : IpAddr → String
  /-- The derived debug rendering of a value. -/
  debug : Value → String
  /-- The number of an error code. -/
  errorNumber : ErrorCode → String

section Token

variable (printers : TokenPrinters)

/-! ### The text -/

/-- The canonical text of a value that a single text has a faithful shape for. -/
def canonicalText : Value → Option String
  | .null => some "null"
  | .bool flag => some (if flag then "true" else "false")
  | .int number => some (toString number)
  | .float bits => some (printers.float bits)
  | .decimal mantissa scale => some (Decimal.ofParts mantissa scale).toText
  | .string text => some text
  | .bytes content => some (hexText content)
  | .path path => printers.path path
  | .timestamp instant => some (printers.timestamp instant)
  | .duration nanoseconds => some (toString nanoseconds ++ "ns")
  | .byteSize bytes => some (toString bytes ++ "B")
  | .percent bits => some (printers.float bits ++ "%")
  | .regex source => some source
  | .uuid bits => some (uuidText bits)
  | .ip address => some (printers.address address)
  | .ipNetwork address prefixLen => some (printers.address address ++ "/" ++ toString prefixLen)
  | .port number => some (toString number.toNat)
  | .error error _ => some (error.error.code.name ++ ": " ++ error.error.message)
  | .list _ | .map _ | .record _ _ _ _ => none

/-- The identifier of a schema as text. -/
def schemaIdText (id : SchemaId) : String :=
  id.name ++ "/" ++ toString id.version

/-- The texts of a map's values under its keys in order. -/
def mapTokens (entries : List (String × String)) : List String :=
  ((entries.map Prod.fst).insertionSort (· ≤ ·)).map fun key =>
    key ++ "=" ++ (entries.lookup key).getD "null"

/-- The texts of a record's values under the names of its fields. -/
def fieldTokens (names tokens : List String) : List String :=
  names.zipIdx.map fun name => name.1 ++ "=" ++ (tokens[name.2]?).getD "null"

mutual

/-- A text for a value that does not depend on the order of a map. -/
def token : Value → String
  | .null => "null"
  | .list items => "[" ++ ",".intercalate (tokens items) ++ "]"
  | .map entries => "\x7b" ++ ",".intercalate (mapTokens (entryTokens entries)) ++ "\x7d"
  | .record schema fields _ _ =>
    schemaIdText schema.id ++ "\x7b" ++ ",".intercalate (fieldTokens schema.fields (tokens fields)) ++
      "\x7d"
  | .error error _ =>
    "error(" ++ printers.errorNumber error.error.code ++ ":" ++ error.error.message ++ ")"
  | value => value.typeName ++ ":" ++ (canonicalText printers value).getD (printers.debug value)
termination_by structural value => value

/-- The texts of the items of a list. -/
def tokens : List Value → List String
  | [] => []
  | item :: items => token item :: tokens items
termination_by structural items => items

/-- The entries of a map with the texts of their values. -/
def entryTokens : List (String × Value) → List (String × String)
  | [] => []
  | (key, value) :: entries => (key, token value) :: entryTokens entries
termination_by structural entries => entries

end

/-! ### The value taken apart -/

/-- What is written of a value before what it holds. -/
def tokenLabel : Value → List Char
  | .null => "null".toList
  | .list _ => ['[']
  | .map _ => ['\x7b']
  | .record schema _ _ _ => (schemaIdText schema.id).toList ++ ['\x7b']
  | .error _ _ => "error(".toList
  | value => value.typeName.toList ++ [':']

/-- An item that stands under a key. -/
def underKey (key : String) (item : Item Char) : Item Char :=
  (key.toList ++ '=' :: item.1, item.2)

/-- What stands for a value that is not there. -/
def nullItem : Item Char :=
  ("null".toList, .text [])

/-- The items of a map under its keys in order. -/
def mapItems (entries : List (String × Item Char)) : List (Item Char) :=
  ((entries.map Prod.fst).insertionSort (· ≤ ·)).map fun key =>
    underKey key ((entries.lookup key).getD nullItem)

/-- The items of a record under the names of its fields. -/
def fieldItems (names : List String) (items : List (Item Char)) : List (Item Char) :=
  names.zipIdx.map fun name => underKey name.1 ((items[name.2]?).getD nullItem)

mutual

/-- What stands behind what is written of a value first. -/
def tokenBody : Value → Body Char
  | .null => .text []
  | .list items => .group (separatedBy [','] (tokenItems items)) [']']
  | .map entries => .group (separatedBy [','] (mapItems (entryItems entries))) ['\x7d']
  | .record schema fields _ _ =>
    .group (separatedBy [','] (fieldItems schema.fields (tokenItems fields))) ['\x7d']
  | .error error _ =>
    .text (printers.errorNumber error.error.code ++ ":" ++ error.error.message ++ ")").toList
  | value => .text ((canonicalText printers value).getD (printers.debug value)).toList
termination_by structural value => value

/-- The items of a list taken apart. -/
def tokenItems : List Value → List (List Char × Body Char)
  | [] => []
  | item :: items => (tokenLabel item, tokenBody item) :: tokenItems items
termination_by structural items => items

/-- The entries of a map with their values taken apart. -/
def entryItems : List (String × Value) → List (String × (List Char × Body Char))
  | [] => []
  | (key, value) :: entries => (key, tokenLabel value, tokenBody value) :: entryItems entries
termination_by structural entries => entries

end

/-- A value taken apart into the texts it is written with. -/
def tokenWritten (value : Value) : Item Char :=
  (tokenLabel value, tokenBody printers value)

/-- Values that are taken apart into the same texts. -/
def TokensAlike (a b : Value) : Prop :=
  tokenWritten printers a = tokenWritten printers b

/-- Whether two values cannot be mistaken for each other: at the first place where two containers
differ, neither goes on as the other does. -/
def TokensToldApart (a b : Value) : Prop :=
  RootsToldApart (tokenWritten printers a) (tokenWritten printers b)

end Token

/-! ### The text is what the parts are written as -/

section Written

variable {printers : TokenPrinters}

theorem tokenItems_eq_map (items : List Value) :
    tokenItems printers items = items.map (tokenWritten printers) := by
  induction items with
  | nil => rfl
  | cons item items ih => rw [tokenItems, ih, map_cons, tokenWritten]

theorem tokens_eq_map (items : List Value) : tokens printers items = items.map (token printers) := by
  induction items with
  | nil => rfl
  | cons item items ih => rw [tokens, ih, map_cons]

theorem flatItem_underKey (key : String) (item : Item Char) :
    flatItem (underKey key item) = key.toList ++ '=' :: flatItem item := by
  simp [flatItem, underKey]

theorem flatItem_nullItem : flatItem nullItem = "null".toList := by
  simp [flatItem, nullItem, Body.flat]

variable {entries : List (String × Value)}

theorem flatItem_lookup
    (h : ∀ entry ∈ entries, flatItem (tokenWritten printers entry.2) =
      (token printers entry.2).toList) (key : String) :
    flatItem (((entryItems printers entries).lookup key).getD nullItem) =
      (((entryTokens printers entries).lookup key).getD "null").toList := by
  induction entries with
  | nil => exact flatItem_nullItem
  | cons entry entries ih =>
    obtain ⟨other, value⟩ := entry
    simp only [entryItems, entryTokens, lookup_cons]
    split
    · exact h (other, value) mem_cons_self
    · exact ih fun entry hmem => h entry (mem_cons_of_mem _ hmem)

theorem flatItem_getElem? {items : List Value}
    (h : ∀ item ∈ items, flatItem (tokenWritten printers item) = (token printers item).toList)
    (index : Nat) :
    flatItem (((tokenItems printers items)[index]?).getD nullItem) =
      (((tokens printers items)[index]?).getD "null").toList := by
  rw [tokenItems_eq_map, tokens_eq_map, getElem?_map, getElem?_map]
  cases hitem : items[index]? with
  | none => exact flatItem_nullItem
  | some item => exact h item (mem_of_getElem? hitem)

theorem map_flatItem_mapItems
    (h : ∀ entry ∈ entries, flatItem (tokenWritten printers entry.2) =
      (token printers entry.2).toList) :
    (mapItems (entryItems printers entries)).map flatItem =
      (mapTokens (entryTokens printers entries)).map String.toList := by
  have hkeys : (entryItems printers entries).map Prod.fst =
      (entryTokens printers entries).map Prod.fst := by
    clear h
    induction entries with
    | nil => rfl
    | cons entry entries ih => rw [entryItems, entryTokens, map_cons, map_cons, ih]
  rw [mapItems, mapTokens, hkeys, List.map_map, List.map_map]
  refine map_congr_left fun key _ => ?_
  simp only [Function.comp_apply, flatItem_underKey, String.toList_append, flatItem_lookup h]
  simp

theorem map_flatItem_fieldItems {fields : List Value} (names : List String)
    (h : ∀ field ∈ fields, flatItem (tokenWritten printers field) = (token printers field).toList) :
    (fieldItems names (tokenItems printers fields)).map flatItem =
      (fieldTokens names (tokens printers fields)).map String.toList := by
  rw [fieldItems, fieldTokens, List.map_map, List.map_map]
  refine List.map_congr_left fun name _ => ?_
  simp only [Function.comp_apply, flatItem_underKey, String.toList_append, flatItem_getElem? h]
  simp

/-- A value's text is what is written of it taken apart. -/
theorem flatItem_tokenWritten (value : Value) :
    flatItem (tokenWritten printers value) = (token printers value).toList := by
  induction value using Value.induction with
  | leaf value hvalue =>
    cases value <;> simp_all [Value.IsLeaf, flatItem, tokenWritten, tokenLabel, tokenBody, Body.flat,
      token, Value.typeName]
  | list items ih =>
    have hitems : (tokenItems printers items).map flatItem =
        (tokens printers items).map String.toList := by
      rw [tokenItems_eq_map, tokens_eq_map, List.map_map, List.map_map]
      exact List.map_congr_left ih
    simp [flatItem, tokenWritten, tokenLabel, tokenBody, Body.flat, token, flatItems_separatedBy,
      String.toList_intercalate, hitems]
  | map entries ih =>
    simp [flatItem, tokenWritten, tokenLabel, tokenBody, Body.flat, token, flatItems_separatedBy,
      String.toList_intercalate, map_flatItem_mapItems ih]
  | record schema fields extra provenance ih _ =>
    simp [flatItem, tokenWritten, tokenLabel, tokenBody, Body.flat, token, flatItems_separatedBy,
      String.toList_intercalate, map_flatItem_fieldItems schema.fields ih]

/-- **What the text of a value tells.** The texts of values that are told apart are the same only
for values that are alike. -/
theorem token_eq_iff {a b : Value} (h : TokensToldApart printers a b) :
    token printers a = token printers b ↔ TokensAlike printers a b := by
  rw [← String.toList_inj, ← flatItem_tokenWritten, ← flatItem_tokenWritten]
  exact flatItem_eq_iff h

theorem token_ne_empty (value : Value) : token printers value ≠ "" := by
  intro h
  have hflat := @flatItem_tokenWritten printers value
  rw [h] at hflat
  have hlabel := (append_eq_nil_iff.1 hflat).1
  cases value <;> simp [tokenWritten, tokenLabel] at hlabel

end Written

end OnoSendai.Temporal
