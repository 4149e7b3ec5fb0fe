import OnoSendai.Value.DecimalText

/-!
# Byte sizes and durations

Semantic scalars that carry a unit (`ono_value::units`): counts of bytes below `2 ^ 128` and
signed counts of nanoseconds in 128 bits, read from a number with a unit behind it and written in
a chosen unit. A number is read through signed integers of 128 bits, and without its sign.
-/

namespace OnoSendai

open Nat Char Decimal Int
open List hiding all_eq_true append_assoc length length_append

/-! ### Units -/

/-- A unit of information. -/
inductive ByteUnit
  | b
  | kiB
  | miB
  | giB
  | tiB
  | piB
  | kB
  | mB
  | gB
  | tB
  | pB
deriving DecidableEq

namespace ByteUnit

/-- Every byte unit. -/
def all : List ByteUnit :=
  [b, kiB, miB, giB, tiB, piB, kB, mB, gB, tB, pB]

/-- The binary units, largest first. -/
def binaryDescending : List ByteUnit :=
  [piB, tiB, giB, miB, kiB, b]

/-- The suffix of a literal in the unit. -/
def suffix : ByteUnit → String
  | b => "B"
  | kiB => "KiB"
  | miB => "MiB"
  | giB => "GiB"
  | tiB => "TiB"
  | piB => "PiB"
  | kB => "KB"
  | mB => "MB"
  | gB => "GB"
  | tB => "TB"
  | pB => "PB"

/-- How many bytes the unit is. -/
def factor : ByteUnit → ℕ
  | b => 1
  | kiB => 2 ^ 10
  | miB => 2 ^ 20
  | giB => 2 ^ 30
  | tiB => 2 ^ 40
  | piB => 2 ^ 50
  | kB => 10 ^ 3
  | mB => 10 ^ 6
  | gB => 10 ^ 9
  | tB => 10 ^ 12
  | pB => 10 ^ 15

/-- The unit with a suffix. -/
def fromSuffix (suffix : List Char) : Option ByteUnit :=
  all.find? fun unit => unit.suffix.toList = suffix

theorem fromSuffix_suffix (unit : ByteUnit) : fromSuffix unit.suffix.toList = some unit := by
  cases unit <;> decide

theorem factor_pos (unit : ByteUnit) : 0 < unit.factor := by
  cases unit <;> decide

theorem isAlpha_of_mem_suffix (unit : ByteUnit) :
    unit.suffix.toList ≠ [] ∧ unit.suffix.toList.all isAlpha = true := by
  cases unit <;> decide

end ByteUnit

/-- A unit of time. -/
inductive DurationUnit
  | nanoseconds
  | microseconds
  | milliseconds
  | seconds
  | minutes
  | hours
  | days
  | weeks
deriving DecidableEq

namespace DurationUnit

/-- Every duration unit, smallest first. -/
def all : List DurationUnit :=
  [.nanoseconds, .microseconds, .milliseconds, .seconds, .minutes, .hours, .days, .weeks]

/-- The suffix of a literal in the unit. -/
def suffix : DurationUnit → String
  | nanoseconds => "ns"
  | microseconds => "us"
  | milliseconds => "ms"
  | seconds => "s"
  | minutes => "m"
  | hours => "h"
  | days => "d"
  | weeks => "w"

/-- How many nanoseconds the unit is. -/
def inNanoseconds : DurationUnit → ℕ
  | nanoseconds => 1
  | microseconds => 1000
  | milliseconds => 1000000
  | seconds => 1000000000
  | minutes => 60 * 1000000000
  | hours => 60 * 60 * 1000000000
  | days => 24 * 60 * 60 * 1000000000
  | weeks => 7 * 24 * 60 * 60 * 1000000000

/-- The unit with a suffix. -/
def fromSuffix (suffix : List Char) : Option DurationUnit :=
  all.find? fun unit => unit.suffix.toList = suffix

theorem fromSuffix_suffix (unit : DurationUnit) : fromSuffix unit.suffix.toList = some unit := by
  cases unit <;> decide

theorem inNanoseconds_pos (unit : DurationUnit) : 0 < unit.inNanoseconds := by
  cases unit <;> decide

theorem isAlpha_of_mem_suffix (unit : DurationUnit) :
    unit.suffix.toList ≠ [] ∧ unit.suffix.toList.all isAlpha = true := by
  cases unit <;> decide

theorem fromSuffix_nil : fromSuffix [] = none := by
  decide

end DurationUnit

/-! ### Numbers with a unit -/

/-- Splits a literal before its first letter. -/
def splitLiteral (text : List Char) : Option (List Char × List Char) :=
  if (trim text).any isAlpha then
    let number := trim ((trim text).takeWhile (!isAlpha ·))
    if number.isEmpty then none
    else some (number, trim ((trim text).dropWhile (!isAlpha ·)))
  else none

/-- A number in units of `factor`, exact when the number is whole. The last division is a raw
one, by a positive number. -/
def scaleToBase (number : List Char) (factor : ℕ) : Option I128 := do
  let factor ← checked factor
  match parseI128 (String.ofList number) with
  | some whole => checked (whole * factor)
  | none => do
    let number ← (parse (String.ofList number)).toOption
    let scaled ← (checkedMul number ⟨factor, 0, zero_le _⟩).toOption
    let power ← checked (10 ^ scaled.scale)
    checked ((scaled.mantissa : ℤ).tdiv power)

/-- The failure of a text that is no literal of a dimension. -/
def unitError (text dimension : String) : ErrorValue where
  code := .other "type.invalid_unit"
  message := "`" ++ text ++ "` is not a " ++ dimension ++ " literal"

/-- An integer as it is written. -/
def integerText (number : ℤ) : List Char :=
  (if number < 0 then ['-'] else []) ++ toDigits 10 number.natAbs

/-- A number that is not a whole multiple of a unit, as it is written in that unit. -/
def fractionText (showFloat : UInt64 → String) (count : ℤ) (factor : ℕ) : List Char :=
  (showFloat (Binary64.div (Binary64.ofInt count) (Binary64.ofInt factor))).toList

/-! ### Byte sizes -/

/-- A quantity of information, in bytes. -/
structure ByteSize where
  bytes : ℕ
  lt : bytes < 2 ^ 128

namespace ByteSize

/-- Reads a byte size. -/
def parse (text : String) : Except ErrorValue ByteSize :=
  match splitLiteral text.toList with
  | none => .error (unitError text "byte size")
  | some (number, suffix) =>
    match ByteUnit.fromSuffix suffix with
    | none => .error (unitError text "byte size")
    | some unit =>
      if number.head? = some '-' then .error (unitError text "byte size")
      else
        match scaleToBase number unit.factor with
        | none => .error (unitError text "byte size")
        | some bytes => .ok ⟨(bytes : ℤ).natAbs, by have := bytes.2; unfold FitsI128 at this; omega⟩

/-- The exact text, in bytes. -/
def exact (size : ByteSize) : String :=
  String.ofList (integerText size.bytes ++ ByteUnit.b.suffix.toList)

/-- The text in a unit, exact for a whole multiple of it. -/
def renderIn (showFloat : UInt64 → String) (size : ByteSize) (unit : ByteUnit) : String :=
  if size.bytes % unit.factor = 0 then
    String.ofList (integerText (size.bytes / unit.factor : ℕ) ++ unit.suffix.toList)
  else String.ofList (fractionText showFloat size.bytes unit.factor ++ unit.suffix.toList)

end ByteSize

/-! ### Durations -/

/-- A signed span of time, in nanoseconds. -/
structure Duration where
  nanoseconds : I128

namespace Duration

/-- The total of the terms of a literal and how many there are, behind those that were read. -/
def parseTerms (text : String) (rest : List Char) (total : I128) (terms : ℕ) :
    Except ErrorValue (I128 × ℕ) :=
  if rest.isEmpty then .ok (total, terms)
  else
    match _hsuffix : DurationUnit.fromSuffix
        ((rest.dropWhile isNumeral).takeWhile isAlpha) with
    | none => .error (unitError text "duration")
    | some unit =>
      match scaleToBase (rest.takeWhile isNumeral) unit.inNanoseconds with
      | none => .error (unitError text "duration")
      | some term =>
        match checked (total + term) with
        | none => .error (unitError text "duration")
        | some total =>
          parseTerms text
            (((rest.dropWhile isNumeral).dropWhile isAlpha).dropWhile Link.isWhitespace)
            total (terms + 1)
termination_by rest.length
decreasing_by
  have hafter := (List.dropWhile_sublist (l := (rest.dropWhile isNumeral).dropWhile Char.isAlpha)
    Link.isWhitespace).length_le
  have htail := (dropWhile_sublist (l := rest) isNumeral).length_le
  have hparts := congrArg List.length
    (takeWhile_append_dropWhile (p := isAlpha) (l := rest.dropWhile isNumeral))
  have hne : (rest.dropWhile isNumeral).takeWhile isAlpha ≠ [] := by
    intro hnil
    rw [hnil, DurationUnit.fromSuffix_nil] at _hsuffix
    cases _hsuffix
  have hpos := length_pos_iff.2 hne
  rw [List.length_append] at hparts
  omega

/-- Whether a literal has a minus sign, and its terms. -/
def signAndTerms : List Char → Bool × List Char
  | '-' :: rest => (true, rest.dropWhile Link.isWhitespace)
  | rest => (false, rest)

/-- Reads a duration. -/
def parse (text : String) : Except ErrorValue Duration :=
  let literal := signAndTerms (trim text.toList)
  if literal.2.isEmpty then .error (unitError text "duration")
  else
    match parseTerms text literal.2 ⟨0, fitsI128_zero⟩ 0 with
    | .error error => .error error
    | .ok (_, 0) => .error (unitError text "duration")
    | .ok (total, _ + 1) => .ok ⟨if literal.1 then wrappingNeg total else total⟩

/-- The exact text, in nanoseconds. -/
def exact (span : Duration) : String :=
  String.ofList (integerText span.nanoseconds ++ DurationUnit.nanoseconds.suffix.toList)

/-- The text in a unit, exact for a whole multiple of it. -/
def renderIn (showFloat : UInt64 → String) (span : Duration) (unit : DurationUnit) : String :=
  if (span.nanoseconds : ℤ).tmod unit.inNanoseconds = 0 then
    String.ofList
      (integerText ((span.nanoseconds : ℤ).tdiv unit.inNanoseconds) ++ unit.suffix.toList)
  else
    String.ofList (fractionText showFloat span.nanoseconds unit.inNanoseconds ++ unit.suffix.toList)

end Duration

/-! ### What is read from digits and a suffix -/

section Digits

variable {digits suffix : List Char} {factor : ℕ}

theorem isAlpha_iff {c : Char} :
    c.isAlpha = true ↔ (65 ≤ c.toNat ∧ c.toNat ≤ 90) ∨ (97 ≤ c.toNat ∧ c.toNat ≤ 122) := by
  have heq : c.isAlpha = (decide (65 ≤ c.val ∧ c.val ≤ 90) ||
      (decide (97 ≤ c.val) && decide (c.val ≤ 122))) := rfl
  simp [heq, UInt32.le_iff_toNat_le]

theorem isWhitespace_of_isAlpha {c : Char} (h : c.isAlpha = true) :
    Link.isWhitespace c = false := by
  have hbounds := isAlpha_iff.1 h
  simp only [Link.isWhitespace, Bool.or_eq_false_iff, Bool.and_eq_false_iff,
    decide_eq_false_iff_not]
  omega

theorem isAlpha_of_isDigit {c : Char} (h : c.isDigit = true) : c.isAlpha = false := by
  have hbounds : 48 ≤ c.toNat ∧ c.toNat ≤ 57 := by
    simpa [isDigit, UInt32.le_iff_toNat_le] using h
  rw [Bool.eq_false_iff]
  intro halpha
  have := isAlpha_iff.1 halpha
  omega

theorem parseI128_of_isDigit (h : ∀ c ∈ digits, c.isDigit = true) (hdigits : digits ≠ []) :
    parseI128 (String.ofList digits) =
      if ofDigitChars 10 digits 0 < 2 ^ 127 then some (ofDigitChars 10 digits 0 : ℤ)
      else none := by
  obtain ⟨first, rest, rfl⟩ := exists_cons_of_ne_nil hdigits
  have hfirst := h first mem_cons_self
  have hminus := ne_of_isDigit hfirst (d := '-') (by decide)
  have hplus := ne_of_isDigit hfirst (d := '+') (by decide)
  have hread : decimalDigits (first :: rest) = some (ofDigitChars 10 (first :: rest) 0) := by
    rw [decimalDigits, isEmpty_cons, List.all_eq_true.2 h, if_neg (by decide)]
    rfl
  rw [parseI128, String.toList_ofList]
  split
  · simp_all
  · simp_all
  · rw [hread]
    split_ifs with hlt
    · simpa [Option.filter] using hlt
    · simpa [Option.filter] using hlt

/-- **A whole number in units of a factor is exact**, where it fits 128 bits. -/
theorem scaleToBase_of_isDigit (h : ∀ c ∈ digits, c.isDigit = true) (hdigits : digits ≠ [])
    (hfactor : 0 < factor) (hfits : FitsI128 factor) :
    scaleToBase digits factor = checked (ofDigitChars 10 digits 0 * factor : ℕ) := by
  rw [scaleToBase, checked_of_fits hfits, Option.bind_eq_bind, Option.bind_some,
    parseI128_of_isDigit h hdigits]
  by_cases hlt : ofDigitChars 10 digits 0 < 2 ^ 127
  · rw [if_pos hlt]
    push_cast
    rfl
  · have hout : ¬FitsI128 (ofDigitChars 10 digits 0 : ℕ) := by
      unfold FitsI128
      omega
    have hproduct : ¬FitsI128 (ofDigitChars 10 digits 0 * factor : ℕ) := by
      have hle := Nat.le_mul_of_pos_right (ofDigitChars 10 digits 0) hfactor
      unfold FitsI128
      omega
    have hread : parse (String.ofList digits) =
        .error (parseError (String.ofList digits)) := by
      rw [@parse_eq_parseParts _ false digits [] hdigits
        (by rwa [append_nil]) (by simp),
        parseParts_of_isDigit hdigits (by rwa [append_nil]) (zero_le _),
        append_nil, checked_eq_none.2 hout, Option.elim_none]
    rw [if_neg hlt, checked_eq_none.2 hproduct, hread]
    rfl

/-- Digits and a suffix of letters are split where they meet. -/
theorem splitLiteral_append (h : ∀ c ∈ digits, c.isDigit = true) (hdigits : digits ≠ [])
    (hsuffix : suffix ≠ []) (halpha : suffix.all Char.isAlpha = true) :
    splitLiteral (digits ++ suffix) = some (digits, suffix) := by
  rw [List.all_eq_true] at halpha
  have hspace := fun c hc => isWhitespace_of_isDigit (h c hc)
  have hspace' := fun c hc => isWhitespace_of_isAlpha (halpha c hc)
  have htrim : trim (digits ++ suffix) = digits ++ suffix := trim_eq fun c hc =>
    (mem_append.1 hc).elim (hspace c) (hspace' c)
  have hnumber : ∀ c ∈ digits, (!isAlpha c) = true := fun c hc =>
    by rw [isAlpha_of_isDigit (h c hc)]; rfl
  obtain ⟨first, rest, rfl⟩ := exists_cons_of_ne_nil hsuffix
  have hfirst := halpha first mem_cons_self
  have htake : (first :: rest).takeWhile (!isAlpha ·) = [] := by simp [hfirst]
  have hdrop : (first :: rest).dropWhile (!isAlpha ·) = first :: rest := by simp [hfirst]
  have hany : (digits ++ first :: rest).any isAlpha = true :=
    any_eq_true.2 ⟨first, by simp, hfirst⟩
  rw [splitLiteral, htrim, if_pos hany, takeWhile_append_of_pos hnumber,
    dropWhile_append_of_pos hnumber, htake, hdrop, append_nil, trim_eq hspace,
    trim_eq hspace', if_neg (by simpa using hdigits)]

end Digits

/-! ### Byte sizes are read back -/

namespace ByteSize

/-- **Digits and a suffix are read to the count they stand for**, where that fits 128 bits,
signed. -/
theorem parse_digits {text : String} {digits : List Char} {unit : ByteUnit}
    (htext : text.toList = digits ++ unit.suffix.toList) (h : ∀ c ∈ digits, c.isDigit = true)
    (hdigits : digits ≠ []) (size : ByteSize)
    (hsize : ofDigitChars 10 digits 0 * unit.factor = size.bytes) :
    parse text = .ok size ↔ size.bytes < 2 ^ 127 := by
  obtain ⟨hsuffix, halpha⟩ := unit.isAlpha_of_mem_suffix
  have hfactor : FitsI128 unit.factor := by cases unit <;> decide
  obtain ⟨first, rest, rfl⟩ := exists_cons_of_ne_nil hdigits
  have hminus := ne_of_isDigit (h first mem_cons_self) (d := '-') (by decide)
  rw [parse, htext, splitLiteral_append h hdigits hsuffix halpha]
  simp only [ByteUnit.fromSuffix_suffix]
  rw [if_neg (by simpa using hminus), scaleToBase_of_isDigit h hdigits unit.factor_pos hfactor,
    hsize]
  by_cases hlt : size.bytes < 2 ^ 127
  · have hfits : FitsI128 size.bytes := by
      unfold FitsI128
      omega
    rw [checked_of_fits hfits]
    exact iff_of_true rfl hlt
  · have hout : ¬FitsI128 size.bytes := by
      unfold FitsI128
      omega
    rw [checked_eq_none.2 hout]
    exact iff_of_false (by simp) hlt

theorem toList_exact (size : ByteSize) :
    size.exact.toList = toDigits 10 size.bytes ++ ByteUnit.b.suffix.toList := by
  rw [exact, String.toList_ofList, integerText, if_neg (by omega), nil_append,
    natAbs_natCast]

theorem toList_renderIn {showFloat : UInt64 → String} {size : ByteSize} {unit : ByteUnit}
    (h : unit.factor ∣ size.bytes) : (size.renderIn showFloat unit).toList =
      toDigits 10 (size.bytes / unit.factor) ++ unit.suffix.toList := by
  rw [renderIn, if_pos (mod_eq_zero_of_dvd h), String.toList_ofList, integerText,
    if_neg (not_lt.2 (natCast_nonneg _)), nil_append, natAbs_natCast]

end ByteSize

/-! ### Durations are read back -/

namespace Duration

section Digits

variable {text : String} {digits : List Char} {unit : DurationUnit}

/-- A literal of one term. -/
theorem parseTerms_digits (h : ∀ c ∈ digits, c.isDigit = true) (hdigits : digits ≠ []) :
    parseTerms text (digits ++ unit.suffix.toList) ⟨0, by decide⟩ 0 =
      (checked (Nat.ofDigitChars 10 digits 0 * unit.inNanoseconds : ℕ)).elim
        (.error (unitError text "duration")) fun total => .ok (total, 1) := by
  obtain ⟨hsuffix, halpha⟩ := unit.isAlpha_of_mem_suffix
  rw [List.all_eq_true] at halpha
  have hfactor : FitsI128 unit.inNanoseconds := by cases unit <;> decide
  have hnumeral : ∀ c ∈ digits, isNumeral c = true := fun c hc => by rw [isNumeral, h c hc]; rfl
  obtain ⟨htake, hdrop⟩ : unit.suffix.toList.takeWhile isNumeral = [] ∧
      unit.suffix.toList.dropWhile isNumeral = unit.suffix.toList := by
    cases unit <;> decide
  have hletters : unit.suffix.toList.takeWhile isAlpha = unit.suffix.toList ∧
      unit.suffix.toList.dropWhile isAlpha = [] :=
    ⟨takeWhile_eq_self_iff.2 halpha, dropWhile_eq_nil_iff.2 halpha⟩
  have hnumber : (digits ++ unit.suffix.toList).takeWhile isNumeral = digits := by
    rw [takeWhile_append_of_pos hnumeral, htake, append_nil]
  have htail : (digits ++ unit.suffix.toList).dropWhile isNumeral = unit.suffix.toList := by
    rw [dropWhile_append_of_pos hnumeral, hdrop]
  have hterm := scaleToBase_of_isDigit h hdigits unit.inNanoseconds_pos hfactor
  rw [parseTerms, if_neg (by simp [hdigits])]
  split
  · rename_i hnone
    rw [htail, hletters.1, DurationUnit.fromSuffix_suffix] at hnone
    cases hnone
  · rename_i found hfound
    rw [htail, hletters.1, DurationUnit.fromSuffix_suffix] at hfound
    cases hfound
    rw [hnumber, hterm, htail, hletters.2]
    cases htotal : checked (ofDigitChars 10 digits 0 * unit.inNanoseconds : ℕ) with
    | none => rfl
    | some total =>
      have hsum : checked (((⟨0, by decide⟩ : I128) : ℤ) + total) = some total := by
        rw [checked_eq_some, zero_add]
      simp only [hsum, Option.elim_some]
      rw [parseTerms]
      rfl

/-- **Digits and a suffix are read to the count they stand for**, where that fits 128 bits. -/
theorem parse_digits {negative : Bool} (h : ∀ c ∈ digits, c.isDigit = true) (hdigits : digits ≠ [])
    (htext : text.toList = (if negative then ['-'] else []) ++ (digits ++ unit.suffix.toList)) :
    parse text = (checked (ofDigitChars 10 digits 0 * unit.inNanoseconds : ℕ)).elim
      (.error (unitError text "duration"))
      fun total => .ok ⟨if negative then wrappingNeg total else total⟩ := by
  have halpha := List.all_eq_true.1 unit.isAlpha_of_mem_suffix.2
  have hspace : ∀ c ∈ digits ++ unit.suffix.toList, Link.isWhitespace c = false := fun c hc =>
    (mem_append.1 hc).elim (fun hc => isWhitespace_of_isDigit (h c hc))
      fun hc => isWhitespace_of_isAlpha (halpha c hc)
  have htrim : trim text.toList = text.toList := by
    refine trim_eq fun c hc => ?_
    rw [htext, mem_append] at hc
    rcases hc with hc | hc
    · split_ifs at hc
      · rw [mem_singleton.1 hc]
        decide
      · cases hc
    · exact hspace c hc
  obtain ⟨first, rest, rfl⟩ := exists_cons_of_ne_nil hdigits
  have hsign : signAndTerms text.toList =
      (negative, first :: rest ++ unit.suffix.toList) := by
    rw [htext]
    cases negative with
    | false =>
      have hminus := ne_of_isDigit (h first mem_cons_self) (d := '-') (by decide)
      simp only [Bool.false_eq_true, if_false, nil_append, cons_append]
      rw [signAndTerms]
      simpa using hminus
    | true =>
      have hdrop := dropWhile_cons_of_neg (p := Link.isWhitespace) (a := first)
        (l := rest ++ unit.suffix.toList) (by simp [hspace first (by simp)])
      exact congrArg (Prod.mk true) hdrop
  rw [parse, htrim, hsign]
  simp only
  rw [if_neg (by simp), parseTerms_digits h hdigits]
  cases checked (ofDigitChars 10 (first :: rest) 0 * unit.inNanoseconds : ℕ) <;> rfl

/-- An integer and a suffix are read back to every span but the least. -/
theorem parse_integerText {span : Duration} {count : ℤ}
    (htext : text.toList = integerText count ++ unit.suffix.toList)
    (hcount : count * unit.inNanoseconds = span.nanoseconds) :
    parse text = .ok span ↔ (span.nanoseconds : ℤ) ≠ -2 ^ 127 := by
  have hpos := unit.inNanoseconds_pos
  have hspan := span.nanoseconds.2
  have hdigits := fun c => @isDigit_of_mem_toDigits c count.natAbs
  have hlist : text.toList = (if decide (count < 0) = true then ['-'] else []) ++
      (toDigits 10 count.natAbs ++ unit.suffix.toList) := by
    rw [htext, integerText, List.append_assoc]
    simp only [decide_eq_true_eq]
  have habs : count.natAbs * unit.inNanoseconds = (span.nanoseconds : ℤ).natAbs := by
    rw [← hcount, natAbs_mul, natAbs_natCast]
  have hsign : count < 0 ↔ (span.nanoseconds : ℤ) < 0 := by
    rw [← hcount, mul_neg_iff]
    omega
  rw [parse_digits hdigits toDigits_ne_nil hlist, ofDigitChars_ten_toDigits, habs]
  by_cases hleast : (span.nanoseconds : ℤ) = -2 ^ 127
  · have hout : ¬FitsI128 ((span.nanoseconds : ℤ).natAbs : ℤ) := by
      unfold FitsI128
      omega
    rw [checked_eq_none.2 hout]
    exact iff_of_false (by simp) (not_not.2 hleast)
  · have hin : FitsI128 ((span.nanoseconds : ℤ).natAbs : ℤ) := by
      unfold FitsI128 at hspan ⊢
      omega
    rw [checked_of_fits hin, Option.elim_some]
    refine iff_of_true ?_ hleast
    obtain ⟨nanoseconds⟩ := span
    simp only [Except.ok.injEq, Duration.mk.injEq, decide_eq_true_eq] at hsign ⊢
    rw [Subtype.ext_iff]
    split_ifs with hnegative
    · rw [wrappingNeg_of_nonneg (natCast_nonneg _)]
      simp only
      omega
    · simp only
      omega

end Digits

end Duration

/-! ### Exact text -/

/-- What exact text promises of a byte size. -/
def ByteSize.ReadsBack (showFloat : UInt64 → String) (size : ByteSize) : Prop :=
  parse size.exact = .ok size ∧
    ∀ unit : ByteUnit, unit.factor ∣ size.bytes → parse (size.renderIn showFloat unit) = .ok size

/-- What exact text promises of a duration. -/
def Duration.ReadsBack (showFloat : UInt64 → String) (span : Duration) : Prop :=
  parse span.exact = .ok span ∧
    ∀ unit : DurationUnit, (unit.inNanoseconds : ℤ) ∣ span.nanoseconds →
      parse (span.renderIn showFloat unit) = .ok span

/-- What the text of a decimal promises. -/
def Decimal.ReadsBack (number : Decimal) : Prop :=
  ∃ read, parse number.toText = .ok read ∧ read.mantissa = number.mantissa ∧
    read.scale = number.scale

theorem ByteSize.readsBack_iff_lt (showFloat : UInt64 → String) (size : ByteSize) :
    size.ReadsBack showFloat ↔ size.bytes < 2 ^ 127 := by
  have hexact : parse size.exact = .ok size ↔ size.bytes < 2 ^ 127 :=
    @parse_digits _ _ .b size.toList_exact (fun c => isDigit_of_mem_toDigits)
      toDigits_ne_nil size (by rw [ofDigitChars_ten_toDigits]; exact mul_one _)
  refine ⟨fun h => hexact.1 h.1, fun h => ⟨hexact.2 h, fun unit hdvd => ?_⟩⟩
  refine (parse_digits (toList_renderIn hdvd) (fun c => isDigit_of_mem_toDigits)
    Nat.toDigits_ne_nil size ?_).2 h
  rw [Nat.ofDigitChars_ten_toDigits, Nat.div_mul_cancel hdvd]

theorem Duration.readsBack_iff_ne (showFloat : UInt64 → String) (span : Duration) :
    span.ReadsBack showFloat ↔ (span.nanoseconds : ℤ) ≠ -2 ^ 127 := by
  have hexact : parse span.exact = .ok span ↔ (span.nanoseconds : ℤ) ≠ -2 ^ 127 :=
    @parse_integerText _ .nanoseconds span span.nanoseconds String.toList_ofList
      (mul_one _)
  refine ⟨fun h => hexact.1 h.1, fun h => ⟨hexact.2 h, fun unit hdvd => ?_⟩⟩
  refine (@parse_integerText _ unit span ((span.nanoseconds : ℤ).tdiv unit.inNanoseconds) ?_
    (Int.tdiv_mul_cancel hdvd)).2 h
  rw [renderIn, if_pos (tmod_eq_zero_of_dvd hdvd), String.toList_ofList]

theorem Decimal.readsBack_iff_ne (number : Decimal) :
    number.ReadsBack ↔ (number.mantissa : ℤ) ≠ -2 ^ 127 := by
  rw [ReadsBack, parse_toText]
  split_ifs with h
  · exact iff_of_false (by simp) (not_not.2 h)
  · exact iff_of_true ⟨number, rfl, rfl, rfl⟩ h

/-- **Exact text is read back but at the ends of the range.** A byte size comes back from its
exact text, and from its text in every unit that divides it, exactly below `2 ^ 127`; a duration
does, and a decimal does, exactly when it is not the least integer of 128 bits. -/
theorem readsBack_iff (showFloat : UInt64 → String) :
    (∀ size : ByteSize, size.ReadsBack showFloat ↔ size.bytes < 2 ^ 127) ∧
      (∀ span : Duration, span.ReadsBack showFloat ↔ (span.nanoseconds : ℤ) ≠ -2 ^ 127) ∧
      ∀ number : Decimal, number.ReadsBack ↔ (number.mantissa : ℤ) ≠ -2 ^ 127 :=
  ⟨ByteSize.readsBack_iff_lt showFloat, Duration.readsBack_iff_ne showFloat,
    readsBack_iff_ne⟩

theorem not_readsBack : ¬∀ showFloat : UInt64 → String,
    (∀ size : ByteSize, size.ReadsBack showFloat) ∧
      (∀ span : Duration, span.ReadsBack showFloat) ∧ ∀ number : Decimal, number.ReadsBack := by
  intro h
  have hlt := ((⟨2 ^ 127, by decide⟩ : ByteSize).readsBack_iff_lt fun _ => "").1
    ((h fun _ => "").1 _)
  exact absurd hlt (by decide)

end OnoSendai
