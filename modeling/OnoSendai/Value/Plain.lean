import OnoSendai.Value.Equality

/-!
# What a rendering shows of a value

A rendering of a value shows less than the value holds: every NaN is written alike, and the bytes of
a path that are no text are each displayed as the replacement character.
-/

namespace OnoSendai

/-! ### Paths as they are displayed -/

/-- What may follow the first byte of a character, each byte between two bounds. -/
def continuations (lead : UInt8) : Option (List (UInt8 × UInt8)) :=
  if lead < 0x80 then some []
  else if 0xC2 ≤ lead ∧ lead ≤ 0xDF then some [(0x80, 0xBF)]
  else if lead = 0xE0 then some [(0xA0, 0xBF), (0x80, 0xBF)]
  else if lead = 0xED then some [(0x80, 0x9F), (0x80, 0xBF)]
  else if 0xE1 ≤ lead ∧ lead ≤ 0xEF then some [(0x80, 0xBF), (0x80, 0xBF)]
  else if lead = 0xF0 then some [(0x90, 0xBF), (0x80, 0xBF), (0x80, 0xBF)]
  else if lead = 0xF4 then some [(0x80, 0x8F), (0x80, 0xBF), (0x80, 0xBF)]
  else if 0xF1 ≤ lead ∧ lead ≤ 0xF3 then some [(0x80, 0xBF), (0x80, 0xBF), (0x80, 0xBF)]
  else none

/-- The character that stands for bytes that are no text, U+FFFD. -/
def replacementCharacter : List UInt8 :=
  [0xEF, 0xBF, 0xBD]

/-- What is displayed of the first byte of a character, what is read of the character, and what may
follow. -/
def displayFirst (byte : UInt8) : List UInt8 × List UInt8 × List (UInt8 × UInt8) :=
  match continuations byte with
  | none => (replacementCharacter, [], [])
  | some [] => ([byte], [], [])
  | some expected => ([], [byte], expected)

/-- The same of a byte behind what is read of a character. -/
def displayNext (read : List UInt8) (expected : List (UInt8 × UInt8)) (byte : UInt8) :
    List UInt8 × List UInt8 × List (UInt8 × UInt8) :=
  match expected with
  | [] => displayFirst byte
  | (low, high) :: expected =>
    if low ≤ byte ∧ byte ≤ high then
      if expected.isEmpty then (read ++ [byte], [], []) else ([], read ++ [byte], expected)
    else (replacementCharacter ++ (displayFirst byte).1, (displayFirst byte).2)

/-- What is displayed of bytes behind what is read of a character. -/
def displayFrom (read : List UInt8) (expected : List (UInt8 × UInt8)) : List UInt8 → List UInt8
  | [] => if read.isEmpty then [] else replacementCharacter
  | byte :: bytes =>
    let next := displayNext read expected byte
    next.1 ++ displayFrom next.2.1 next.2.2 bytes

/-- The bytes of a path as it is displayed: what is text as it stands, and the replacement character
for as much as could have begun a character, or for a single byte. -/
def displayed (path : List UInt8) : List UInt8 :=
  displayFrom [] [] path

namespace Value

/-! ### One NaN for all -/

/-- The bits of a number, with one NaN for all. -/
def plainBits (bits : UInt64) : UInt64 :=
  if Binary64.isNaN bits then 0x7FF8000000000000 else bits

mutual

/-- A value with one NaN for all. -/
def plain : Value → Value
  | .float bits => .float (plainBits bits)
  | .percent bits => .percent (plainBits bits)
  | .list items => .list (plainList items)
  | .map entries => .map (plainEntries entries)
  | .record schema fields extra provenance =>
    .record schema (plainList fields) (plainEntries extra)
      { provenance with confidence := provenance.confidence.map plainBits }
  | .error detail causes => .error (plainDetail detail) (plainDetails causes)
  | value => value
termination_by structural value => value

/-- The same of a list. -/
def plainList : List Value → List Value
  | [] => []
  | item :: items => plain item :: plainList items
termination_by structural items => items

/-- The same of a map. -/
def plainEntries : List (String × Value) → List (String × Value)
  | [] => []
  | (key, value) :: entries => (key, plain value) :: plainEntries entries
termination_by structural entries => entries

/-- The same of what an error is about. -/
def plainTarget : Option (ValueRef Value) → Option (ValueRef Value)
  | some (.object schema identity) => some (.object schema (plainEntries identity))
  | target => target
termination_by structural target => target

/-- The same of an error. -/
def plainDetail : ErrorDetail Value → ErrorDetail Value
  | ⟨held, target, help, retryable, metadata⟩ =>
    ⟨held, plainTarget target, help, retryable, plainEntries metadata⟩
termination_by structural detail => detail

/-- The same of a chain of errors. -/
def plainDetails : List (ErrorDetail Value) → List (ErrorDetail Value)
  | [] => []
  | detail :: details => plainDetail detail :: plainDetails details
termination_by structural details => details

end

section Equal

variable {powi : ℕ → UInt64}

theorem lookup_plainEntries (key : String) (entries : List (String × Value)) :
    (plainEntries entries).lookup key = (entries.lookup key).map plain := by
  induction entries with
  | nil => rfl
  | cons entry entries ih =>
    rw [plainEntries, List.lookup_cons, List.lookup_cons, ih]
    cases key == entry.1 <;> rfl

theorem length_plainEntries (entries : List (String × Value)) :
    (plainEntries entries).length = entries.length := by
  induction entries with
  | nil => rfl
  | cons entry entries ih => simp [plainEntries, ih]

/-- No NaN is equal to any number. -/
theorem partialCmp_plainBits (x y : UInt64) :
    (Binary64.partialCmp (plainBits x) (plainBits y) == some .eq) =
      (Binary64.partialCmp x y == some .eq) := by
  have hnan : Binary64.isNaN 0x7FF8000000000000 = true := by decide
  rw [Bool.eq_iff_iff, beq_iff_eq, beq_iff_eq, Binary64.partialCmp_eq_some_eq_iff,
    Binary64.partialCmp_eq_some_eq_iff, plainBits, plainBits]
  cases hx : Binary64.isNaN x <;> cases hy : Binary64.isNaN y <;> simp [hnan, hx, hy]

mutual

/-- Equality does not tell one NaN from another. -/
theorem eq_plain (a b : Value) : eq powi a.plain b.plain = eq powi a b := by
  cases a with
  | float x => cases b <;> first | rfl | exact partialCmp_plainBits x _
  | percent x => cases b <;> first | rfl | exact partialCmp_plainBits x _
  | list items => cases b <;> first | rfl | exact eqLists_plain items _
  | map entries =>
    cases b with
    | map others =>
      rw [plain, plain, eq, eq, eqEntries_plain, length_plainEntries, length_plainEntries]
    | _ => rfl
  | record schema fields extra provenance =>
    cases b with
    | record schema' fields' extra' provenance' =>
      have hprovenance : ({ provenance with
          confidence := provenance.confidence.map plainBits } : Provenance).eq { provenance' with
            confidence := provenance'.confidence.map plainBits } = provenance.eq provenance' := by
        obtain ⟨_, _, _, _, _, confidence, _⟩ := provenance
        obtain ⟨_, _, _, _, _, confidence', _⟩ := provenance'
        cases confidence <;> cases confidence' <;> simp only [Provenance.eq, Option.map]
        rw [partialCmp_plainBits]
      rw [plain, plain, eq, eq, eqLists_plain, eqEntries_plain, length_plainEntries,
        length_plainEntries, hprovenance]
    | _ => rfl
  | error detail causes =>
    cases b with
    | error detail' causes' => rw [plain, plain, eq, eq, eqDetail_plain, eqDetails_plain]
    | _ => rfl
  | _ => cases b <;> rfl
termination_by structural a

theorem eqLists_plain (as bs : List Value) :
    eqLists powi (plainList as) (plainList bs) = eqLists powi as bs := by
  cases as with
  | nil => cases bs <;> rfl
  | cons a as =>
    cases bs with
    | nil => rfl
    | cons b bs => rw [plainList, plainList, eqLists, eqLists, eq_plain, eqLists_plain]
termination_by structural as

theorem eqEntries_plain (as bs : List (String × Value)) :
    eqEntries powi (plainEntries as) (plainEntries bs) = eqEntries powi as bs := by
  cases as with
  | nil => rfl
  | cons entry as =>
    obtain ⟨key, a⟩ := entry
    rw [plainEntries, eqEntries, eqEntries, lookup_plainEntries, eqEntries_plain]
    cases bs.lookup key with
    | none => rfl
    | some b => simp only [Option.map_some, Option.any_some, eq_plain]
termination_by structural as

theorem eqTarget_plain (s t : Option (ValueRef Value)) :
    eqTarget powi (plainTarget s) (plainTarget t) = eqTarget powi s t := by
  rcases s with _ | s
  · rcases t with _ | t
    · rfl
    · cases t <;> rfl
  · cases s with
    | object schema identity =>
      rcases t with _ | t
      · rfl
      · cases t with
        | object =>
          rw [plainTarget, plainTarget, eqTarget, eqTarget, eqEntries_plain, length_plainEntries,
            length_plainEntries]
        | _ => rfl
    | _ => rcases t with _ | t <;> [rfl; cases t <;> rfl]
termination_by structural s

theorem eqDetail_plain (x y : ErrorDetail Value) :
    eqDetail powi (plainDetail x) (plainDetail y) = eqDetail powi x y := by
  cases x
  cases y
  rw [plainDetail, plainDetail, eqDetail, eqDetail, eqTarget_plain, eqEntries_plain,
    length_plainEntries, length_plainEntries]
termination_by structural x

theorem eqDetails_plain (xs ys : List (ErrorDetail Value)) :
    eqDetails powi (plainDetails xs) (plainDetails ys) = eqDetails powi xs ys := by
  cases xs with
  | nil => cases ys <;> rfl
  | cons x xs =>
    cases ys with
    | nil => rfl
    | cons y ys =>
      rw [plainDetails, plainDetails, eqDetails, eqDetails, eqDetail_plain, eqDetails_plain]
termination_by structural xs

end

end Equal

end Value

end OnoSendai
