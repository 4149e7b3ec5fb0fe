import OnoSendai.Value.Arith

/-!
# Equality of values

Two values are equal when they are of one kind and hold equal parts (`PartialEq` of
`ono_value::Value`): floating-point numbers and decimals by their order, paths by their
components, maps by their keys in whatever order they were inserted, and records with their
provenance. Whether two values hold the same data is asked apart from that: who observed a record
does not count, but maps are taken in their order of insertion, and what a record holds is
compared outright.
-/

namespace OnoSendai

namespace Provenance

/-- Equality of provenances; a confidence that is no number is equal to none. -/
def eq (left right : Provenance) : Bool :=
  left.provider == right.provider && left.observed == right.observed &&
    left.source == right.source && left.link = right.link && left.schema = right.schema &&
    left.adapter = right.adapter &&
    match left.confidence, right.confidence with
    | some a, some b => Binary64.partialCmp a b == some .eq
    | none, none => true
    | _, _ => false

/-- The provenance that stands for every other. -/
def fixed : Provenance where
  provider := ""
  observed := none
  source := none
  link := .onThisHost
  schema := ⟨"", 0⟩
  confidence := none
  adapter := none

end Provenance

namespace Value

/-! ### Equality -/

section Equality

variable (powi : ℕ → UInt64)

mutual

/-- Equality of values. -/
def eq : Value → Value → Bool
  | .null, .null => true
  | .bool a, .bool b => a == b
  | .int a, .int b => a == b
  | .float a, .float b => Binary64.partialCmp a b == some .eq
  | .decimal m s, .decimal n t => (Decimal.ofParts m s).eq powi (.ofParts n t)
  | .string a, .string b => a == b
  | .bytes a, .bytes b => a == b
  | .path a, .path b => pathComponents a = pathComponents b
  | .timestamp a, .timestamp b => a == b
  | .duration a, .duration b => a == b
  | .byteSize a, .byteSize b => a == b
  | .percent a, .percent b => Binary64.partialCmp a b == some .eq
  | .regex a, .regex b => a == b
  | .uuid a, .uuid b => a == b
  | .ip a, .ip b => a = b
  | .ipNetwork a m, .ipNetwork b n => a = b && m == n
  | .port a, .port b => a == b
  | .list a, .list b => eqLists a b
  | .map a, .map b => a.length == b.length && eqEntries a b
  | .record s f e p, .record t g d q =>
    s = t && eqLists f g && (e.length == d.length && eqEntries e d) && p.eq q
  | .error a causes, .error b others => eqDetail a b && eqDetails causes others
  | _, _ => false
termination_by structural value => value

/-- Equality of lists. -/
def eqLists : List Value → List Value → Bool
  | [], [] => true
  | a :: as, b :: bs => eq a b && eqLists as bs
  | _, _ => false
termination_by structural value => value

/-- Whether every entry has an equal one under its key. -/
def eqEntries : List (String × Value) → List (String × Value) → Bool
  | [], _ => true
  | (key, value) :: rest, others => (others.lookup key).any (eq value) && eqEntries rest others
termination_by structural value => value

/-- Equality of what errors are about. -/
def eqTarget : Option (ValueRef Value) → Option (ValueRef Value) → Bool
  | none, none => true
  | some (.path a), some (.path b) => pathComponents a = pathComponents b
  | some (.name a), some (.name b) => a == b
  | some (.object s a), some (.object t b) => s = t && (a.length == b.length && eqEntries a b)
  | _, _ => false
termination_by structural value => value

/-- Equality of errors, without the errors they were raised from. -/
def eqDetail : ErrorDetail Value → ErrorDetail Value → Bool
  | ⟨a, s, h, r, m⟩, ⟨b, t, g, q, n⟩ =>
    a = b && eqTarget s t && h == g && r == q && (m.length == n.length && eqEntries m n)
termination_by structural value => value

/-- Equality of chains of errors. -/
def eqDetails : List (ErrorDetail Value) → List (ErrorDetail Value) → Bool
  | [], [] => true
  | a :: as, b :: bs => eqDetail a b && eqDetails as bs
  | _, _ => false
termination_by structural value => value

end

/-- Equality of maps. -/
def eqMaps (left right : MapValue) : Bool :=
  left.length == right.length && eqEntries powi left right

/-! ### The same data -/

mutual

/-- Whether two values hold the same data, whoever observed them. -/
def sameData : Value → Value → Bool
  | .record s f e _, .record t g d _ => s.id = t.id && eqLists powi f g && eqMaps powi e d
  | .list a, .list b => a.length == b.length && sameLists a b
  | .map a, .map b => a.length == b.length && sameEntries a b
  | left, right => eq powi left right

/-- Whether two lists hold the same data, as far as both go. -/
def sameLists : List Value → List Value → Bool
  | a :: as, b :: bs => sameData a b && sameLists as bs
  | _, _ => true

/-- Whether two maps hold the same data in the order of insertion, as far as both go. -/
def sameEntries : List (String × Value) → List (String × Value) → Bool
  | (key, a) :: as, (other, b) :: bs => (key == other && sameData a b) && sameEntries as bs
  | _, _ => true

end

end Equality

/-! ### Without provenance -/

mutual

/-- A value in which every record has the fixed provenance, and the schema that stands for its
own. -/
def erase (standIn : Schema → Schema) : Value → Value
  | .list items => .list (eraseList standIn items)
  | .map entries => .map (eraseEntries standIn entries)
  | .record schema fields extra _ =>
    .record (standIn schema) (eraseList standIn fields) (eraseEntries standIn extra) .fixed
  | value => value

/-- The elements of a list without provenance. -/
def eraseList (standIn : Schema → Schema) : List Value → List Value
  | [] => []
  | item :: items => erase standIn item :: eraseList standIn items

/-- The entries of a map without provenance. -/
def eraseEntries (standIn : Schema → Schema) : List (String × Value) → List (String × Value)
  | [] => []
  | (key, value) :: entries => (key, erase standIn value) :: eraseEntries standIn entries

end

/-- A value in which every record has the fixed provenance. -/
def unobserved (value : Value) : Value :=
  erase id value

/-! ### Induction -/

/-- Whether a value holds no other values that are taken apart: no list, map or record. -/
def IsLeaf : Value → Prop
  | .list _ | .map _ | .record _ _ _ _ => False
  | _ => True

theorem sizeOf_entry_lt {entries : List (String × Value)} {entry : String × Value}
    (h : entry ∈ entries) : sizeOf entry.2 < sizeOf entries := by
  have hentry := List.sizeOf_lt_of_mem h
  obtain ⟨key, value⟩ := entry
  rw [Prod.mk.sizeOf_spec] at hentry
  show sizeOf value < sizeOf entries
  omega

/-- Induction over lists, maps and records. -/
theorem induction {motive : Value → Prop} (leaf : ∀ value, value.IsLeaf → motive value)
    (list : ∀ items, (∀ item ∈ items, motive item) → motive (.list items))
    (map : ∀ entries : List (String × Value), (∀ entry ∈ entries, motive entry.2) →
      motive (.map entries))
    (record : ∀ schema fields extra provenance, (∀ field ∈ fields, motive field) →
      (∀ entry ∈ (extra : List (String × Value)), motive entry.2) →
      motive (.record schema fields extra provenance)) :
    ∀ value, motive value
  | .list items => list items fun item _hitem => induction leaf list map record item
  | .map entries => map entries fun entry _hentry => induction leaf list map record entry.2
  | .record schema fields extra provenance =>
    record schema fields extra provenance
      (fun field _hfield => induction leaf list map record field)
      fun entry _hentry => induction leaf list map record entry.2
  | .null => leaf _ trivial
  | .bool _ => leaf _ trivial
  | .int _ => leaf _ trivial
  | .float _ => leaf _ trivial
  | .decimal _ _ => leaf _ trivial
  | .string _ => leaf _ trivial
  | .bytes _ => leaf _ trivial
  | .path _ => leaf _ trivial
  | .timestamp _ => leaf _ trivial
  | .duration _ => leaf _ trivial
  | .byteSize _ => leaf _ trivial
  | .percent _ => leaf _ trivial
  | .regex _ => leaf _ trivial
  | .uuid _ => leaf _ trivial
  | .ip _ => leaf _ trivial
  | .ipNetwork _ _ => leaf _ trivial
  | .port _ => leaf _ trivial
  | .error _ _ => leaf _ trivial
decreasing_by
  · have := List.sizeOf_lt_of_mem _hitem
    decreasing_tactic
  · have := sizeOf_entry_lt _hentry
    decreasing_tactic
  · have := List.sizeOf_lt_of_mem _hfield
    decreasing_tactic
  · have := sizeOf_entry_lt _hentry
    decreasing_tactic

end Value

end OnoSendai
