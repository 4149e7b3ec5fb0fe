import OnoSendai.Value.Units

/-!
# Arithmetic and order over values

Values are added, subtracted and compared by dimension (`ono_value::arith`): numbers are promoted
to one kind, and a quantity meets only its own. Most operations are checked; the span between two
instants, and the negation of a span before it is taken from an instant, are raw.

The platform gives the powers of ten in floating point, and the library of instants their range.
-/

namespace OnoSendai

open Binary64

/-- The physical dimension of a value. -/
inductive Dimension
  | number
  | information
  | time
  | instant
  | proportion
deriving DecidableEq

/-- The dimension a value has, if it has one. -/
def dimension : Value → Option Dimension
  | .int _ | .float _ | .decimal _ _ => some .number
  | .byteSize _ => some .information
  | .duration _ => some .time
  | .timestamp _ => some .instant
  | .percent _ => some .proportion
  | _ => none

/-- The failure of two values that cannot meet. -/
def incompatible (left right : Value) (operation : String) : ErrorValue :=
  if (dimension left).isSome && (dimension right).isSome then
    { code := .other "type.invalid_unit"
      message := "cannot " ++ operation ++ " " ++ left.typeName ++ " and " ++ right.typeName ++
        ": incompatible units" }
  else
    { code := .other "type.mismatch"
      message := "cannot " ++ operation ++ " " ++ left.typeName ++ " and " ++ right.typeName }

/-- The failure of two values that have no order. -/
def notComparable (left right : Value) : ErrorValue where
  code := .other "type.mismatch"
  message := "cannot order " ++ left.typeName ++ " against " ++ right.typeName

/-- The failure of a result that does not fit 128 bits. -/
def overflow (operation : String) : ErrorValue where
  code := .other "type.mismatch"
  message := "the result of this " ++ operation ++ " does not fit in 128 bits"

/-- The failure of a scalar that would leave its range. -/
def rangeError (message : String) : ErrorValue where
  code := .other "type.invalid_unit"
  message := message

/-! ### Numbers -/

/-- The decimal that a value holds; the parts of a value's decimal fit. -/
def Decimal.ofParts (mantissa : ℤ) (scale : ℕ) : Decimal :=
  if h : FitsI128 mantissa ∧ scale ≤ maxScale then ⟨⟨mantissa, h.1⟩, scale, h.2⟩
  else ⟨⟨0, fitsI128_zero⟩, 0, Nat.zero_le _⟩

/-- The decimal of a whole number. -/
def Decimal.fromInt (number : ℤ) : Decimal :=
  ofParts number 0

/-- A decimal as a value. -/
def Decimal.intoValue (number : Decimal) : Value :=
  .decimal number.mantissa number.scale

/-- Two numbers of one kind. -/
inductive Promoted
  | ints (left right : ℤ)
  | decimals (left right : Decimal)
  | floats (left right : UInt64)

section Arithmetic

variable (powi : ℕ → UInt64)

/-- Two numbers promoted until they are of one kind. -/
def promote : Value → Value → Option Promoted
  | .int a, .int b => some (.ints a b)
  | .decimal m s, .decimal n t => some (.decimals (.ofParts m s) (.ofParts n t))
  | .decimal m s, .int b => some (.decimals (.ofParts m s) (.fromInt b))
  | .int a, .decimal n t => some (.decimals (.fromInt a) (.ofParts n t))
  | .float a, .float b => some (.floats a b)
  | .float a, .int b => some (.floats a (ofInt b))
  | .int a, .float b => some (.floats (ofInt a) b)
  | .float a, .decimal n t => some (.floats a ((Decimal.ofParts n t).toF64 powi))
  | .decimal m s, .float b => some (.floats ((Decimal.ofParts m s).toF64 powi) b)
  | _, _ => none

/-- The range of instants, in nanoseconds: the span between any two fits 128 bits. -/
structure InstantRange where
  least : ℤ
  greatest : ℤ
  fits : FitsI128 (greatest - least) ∧ FitsI128 (least - greatest)

/-- Whether an instant is within the range. -/
def InstantRange.Contains (range : InstantRange) (instant : ℤ) : Prop :=
  range.least ≤ instant ∧ instant ≤ range.greatest

instance (range : InstantRange) (instant : ℤ) : Decidable (range.Contains instant) :=
  inferInstanceAs (Decidable (_ ∧ _))

/-- The time library's conversion of nanoseconds to an instant; `none` is its error. -/
abbrev FromNanosecond : Type :=
  I128 → Option ℤ

/-- What is documented of the conversion: it is exact within the range and an error outside it. -/
structure FromNanosecond.AsDocumented (instants : FromNanosecond) (range : InstantRange) :
    Prop where
  within : ∀ nanos : I128, range.Contains nanos → instants nanos = some ↑nanos
  outside : ∀ nanos : I128, ¬range.Contains nanos → instants nanos = none

variable (instants : FromNanosecond)

/-- An instant moved by a span. -/
def shift (instant span : ℤ) : Except ErrorValue Value :=
  match checked (instant + span) with
  | none => .error (overflow "shift")
  | some nanos =>
    match instants nanos with
    | some shifted => .ok (.timestamp shifted)
    | none => .error (rangeError "the shifted timestamp lies outside the representable range")

/-- A checked integer as a value, or a failure. -/
def checkedValue (value : ℤ → Value) (failure : ErrorValue) (number : ℤ) :
    Except ErrorValue Value :=
  (checked number).elim (.error failure) fun result => .ok (value result)

/-- A checked sum or difference of byte sizes. -/
def checkedBytes (failure : ErrorValue) (number : ℤ) : Except ErrorValue Value :=
  if 0 ≤ number ∧ number < 2 ^ 128 then .ok (.byteSize number.toNat) else .error failure

namespace Value

/-- The sum of two values. -/
def add (left right : Value) : Except ErrorValue Value :=
  match promote powi left right with
  | some (.ints a b) => checkedValue .int (overflow "addition") (a + b)
  | some (.decimals a b) => (a.checkedAdd b).map Decimal.intoValue
  | some (.floats a b) => .ok (.float (Binary64.add a b))
  | none =>
    match left, right with
    | .byteSize a, .byteSize b =>
      checkedBytes (rangeError "the sum of two byte sizes exceeds 128 bits") (a + b)
    | .duration a, .duration b =>
      checkedValue .duration (rangeError "the sum of two durations exceeds 128 bits") (a + b)
    | .percent a, .percent b => .ok (.percent (Binary64.add a b))
    | .timestamp instant, .duration span => shift instants instant span
    | .duration span, .timestamp instant => shift instants instant span
    | .string a, .string b => .ok (.string (a ++ b))
    | _, _ => .error (incompatible left right "add")

/-- The difference of two values. The span between two instants and the negation of a span are
raw. -/
def sub (left right : Value) : Outcome Value :=
  match promote powi left right with
  | some (.ints a b) => .returns (checkedValue .int (overflow "subtraction") (a - b))
  | some (.decimals a b) => .returns ((a.checkedSub b).map Decimal.intoValue)
  | some (.floats a b) => .returns (.ok (.float (Binary64.sub a b)))
  | none =>
    match left, right with
    | .byteSize a, .byteSize b =>
      .returns (checkedBytes (rangeError "a byte size cannot be negative") (a - b))
    | .duration a, .duration b =>
      .returns (checkedValue .duration
        (rangeError "the difference of two durations exceeds 128 bits") (a - b))
    | .percent a, .percent b => .returns (.ok (.percent (Binary64.sub a b)))
    | .timestamp a, .timestamp b =>
      (checked (a - b)).elim .panics fun span => .returns (.ok (.duration span))
    | .timestamp instant, .duration span =>
      (checked (-span)).elim .panics fun back => .returns (shift instants instant back)
    | _, _ => .returns (.error (incompatible left right "subtract"))

/-! ### Order -/

/-- One component of a path, in the order of its kinds. -/
inductive PathComponent
  | rootDir
  | curDir
  | parentDir
  | normal (name : List UInt8)
deriving DecidableEq

/-- The place of a component among others. -/
def PathComponent.key : PathComponent → List ℕ
  | rootDir => [0]
  | curDir => [1]
  | parentDir => [2]
  | normal name => 3 :: name.map UInt8.toNat

/-- The components of a path: its root, then its parts, of which empty ones and the ones that stay
where they are do not count but for a leading one. -/
def pathComponents (path : List UInt8) : List PathComponent :=
  let parts := path.splitOn 0x2f
  let kept := (parts.filter fun part => !part.isEmpty && part ≠ [0x2e]).map fun part =>
    if part = [0x2e, 0x2e] then PathComponent.parentDir else .normal part
  if parts.head? = some [] && parts ≠ [[]] then .rootDir :: kept
  else if parts.head? = some [0x2e] then .curDir :: kept
  else kept

/-- The place of an address among others: its version, then its number. -/
def addressKey : IpAddr → List ℕ
  | .v4 bits => [4, bits.toNat]
  | .v6 bits => [6, bits.toNat]

/-- The order of two numbers of one kind. -/
def Promoted.compare : Promoted → Option Ordering
  | .ints a b => some (Ord.compare a b)
  | .decimals a b => a.partialCmp powi b
  | .floats a b => partialCmp a b

/-- The order of two values that are not both lists. -/
def compareScalars (left right : Value) : Except ErrorValue Ordering :=
  match left, right with
  | .null, .null => .ok .eq
  | .null, _ => .ok .lt
  | _, .null => .ok .gt
  | _, _ =>
    match promote powi left right with
    | some numbers => (Promoted.compare powi numbers).elim (.error (notComparable left right)) .ok
    | none =>
      match left, right with
      | .bool a, .bool b => .ok (compare a b)
      | .string a, .string b => .ok (compare (bytesOf a) (bytesOf b))
      | .bytes a, .bytes b => .ok (compare a b)
      | .path a, .path b =>
        .ok (compare ((pathComponents a).map (·.key)) ((pathComponents b).map (·.key)))
      | .path a, .string b => .ok (compare a (bytesOf b))
      | .string a, .path b => .ok (compare (bytesOf a) b)
      | .timestamp a, .timestamp b => .ok (compare a b)
      | .duration a, .duration b => .ok (compare a b)
      | .byteSize a, .byteSize b => .ok (compare a b)
      | .percent a, .percent b =>
        (partialCmp a b).elim (.error (notComparable left right)) .ok
      | .uuid a, .uuid b => .ok (compare a.toNat b.toNat)
      | .ip a, .ip b => .ok (compare (addressKey a) (addressKey b))
      | .ipNetwork a m, .ipNetwork b n => .ok (compare (addressKey a ++ [m]) (addressKey b ++ [n]))
      | .port a, .port b => .ok (compare a.toNat b.toNat)
      | .port a, .int b => .ok (compare (a.toNat : ℤ) b)
      | .int a, .port b => .ok (compare a (b.toNat : ℤ))
      | _, _ => .error (incompatible left right "compare")

mutual

/-- The order of two values. -/
def compareTo : Value → Value → Except ErrorValue Ordering
  | .list a, .list b => compareLists a b
  | left, right => compareScalars powi left right

/-- The order of two lists: the one of the first elements that differ, else of the lengths. -/
def compareLists : List Value → List Value → Except ErrorValue Ordering
  | a :: as, b :: bs =>
    match compareTo a b with
    | .error failure => .error failure
    | .ok .eq => compareLists as bs
    | .ok order => .ok order
  | as, bs => .ok (compare as.length bs.length)

end

end Value

end Arithmetic

end OnoSendai
