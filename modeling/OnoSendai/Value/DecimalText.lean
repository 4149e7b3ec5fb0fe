import OnoSendai.Kuang.Decode
import OnoSendai.Link.Trust
import OnoSendai.Value.Decimal

/-!
# Decimals as text

How a decimal is written, and how one is read (`ono_value::decimal`). The mantissa is read one
digit after another into an integer of 128 bits, and takes its sign at the end; so the least
mantissa, whose absolute value does not fit, is written and never read.
-/

namespace OnoSendai

open List Nat Option

/-! ### Reading digits -/

/-- A text without white space at its ends. -/
def trim (text : List Char) : List Char :=
  Separated.trimmed Link.isWhitespace text

/-- Whether a text has a minus sign, and what follows its sign. -/
def unsigned : List Char → Bool × List Char
  | '-' :: rest => (true, rest)
  | '+' :: rest => (false, rest)
  | rest => (false, rest)

/-- Reads digits behind those that were read to `start`. -/
def accumulate (start : I128) : List Char → Option I128
  | [] => some start
  | digit :: digits => do
    let tens ← checked (start * 10)
    let next ← checked (tens + (digit.toNat - 48 : ℕ))
    accumulate next digits

/-- The negated integer; the least one is its own. -/
def wrappingNeg (number : I128) : I128 :=
  if h : FitsI128 (-number) then ⟨-number, h⟩ else number

theorem wrappingNeg_of_nonneg {number : I128} (h : 0 ≤ (number : ℤ)) :
    (wrappingNeg number : ℤ) = -number := by
  have hfits := number.2
  rw [wrappingNeg, dif_pos]
  unfold FitsI128 at hfits ⊢
  omega

theorem le_ofDigitChars (digits : List Char) (start : ℕ) :
    start ≤ ofDigitChars 10 digits start := by
  rw [ofDigitChars_eq_ofDigitChars_zero]
  exact (Nat.le_mul_of_pos_left start (by positivity)).trans (le_add_right _ _)

/-- **Digits are read to the number they stand for**, where that fits 128 bits. -/
theorem accumulate_eq (digits : List Char) {start : ℕ} (h : FitsI128 start) :
    accumulate ⟨start, h⟩ digits = checked (ofDigitChars 10 digits start : ℕ) := by
  induction digits generalizing start with
  | nil => exact (checked_of_fits h).symm
  | cons digit digits ih =>
    have hle := le_ofDigitChars digits (10 * start + (digit.toNat - 48))
    have hnext : ofDigitChars 10 (digit :: digits) start =
        ofDigitChars 10 digits (10 * start + (digit.toNat - 48)) := ofDigitChars_cons
    rw [hnext]
    by_cases hfits : FitsI128 (10 * start + (digit.toNat - 48) : ℕ)
    · have htens : FitsI128 (start * 10) := by
        unfold FitsI128 at hfits ⊢
        omega
      rw [← ih hfits, accumulate, checked_of_fits htens, bind_eq_bind, bind_some]
      have hsum : (start : ℤ) * 10 + (digit.toNat - 48 : ℕ) =
          (10 * start + (digit.toNat - 48) : ℕ) := by
        push_cast
        ring
      simp only [hsum, checked_of_fits hfits, bind_some]
    · have hout : ¬FitsI128 (ofDigitChars 10 digits (10 * start + (digit.toNat - 48)) : ℕ) := by
        unfold FitsI128 at hfits ⊢
        omega
      rw [checked_eq_none.2 hout, accumulate]
      by_cases htens : FitsI128 (start * 10)
      · have hsum : ¬FitsI128 ((start : ℤ) * 10 + (digit.toNat - 48 : ℕ)) := by
          unfold FitsI128 at hfits ⊢
          omega
        simp only [checked_of_fits htens, bind_eq_bind, bind_some,
          checked_eq_none.2 hsum, bind_none]
      · simp only [checked_eq_none.2 htens, bind_eq_bind, bind_none]

/-! ### Characters of numbers -/

/-- Whether a character belongs to a written number. -/
def isNumeral (c : Char) : Bool :=
  c.isDigit || c == '.'

theorem isWhitespace_of_isDigit {c : Char} (h : c.isDigit = true) :
    Link.isWhitespace c = false := by
  have hbounds : 48 ≤ c.toNat ∧ c.toNat ≤ 57 := by
    simpa [Char.isDigit, UInt32.le_iff_toNat_le] using h
  simp only [Link.isWhitespace, Bool.or_eq_false_iff, Bool.and_eq_false_iff,
    decide_eq_false_iff_not]
  omega

theorem trim_eq {text : List Char} (h : ∀ c ∈ text, Link.isWhitespace c = false) :
    trim text = text :=
  Separated.trimmed_eq (fun c hc => h c (mem_of_mem_head? hc))
    fun c hc => h c (mem_of_getLast? hc)

theorem ne_of_isDigit {c d : Char} (h : c.isDigit = true) (hd : d.isDigit = false) : c ≠ d := by
  rintro rfl
  rw [h] at hd
  cases hd

theorem unsigned_of_isDigit {c : Char} {rest : List Char} (h : c.isDigit = true) :
    unsigned (c :: rest) = (false, c :: rest) := by
  have hminus := ne_of_isDigit h (d := '-') (by decide)
  have hplus := ne_of_isDigit h (d := '+') (by decide)
  unfold unsigned
  split
  · simp_all
  · simp_all
  · rfl

theorem isDigit_of_mem_toDigits {c : Char} {n : ℕ} (h : c ∈ toDigits 10 n) : c.isDigit = true :=
  Nat.isDigit_of_mem_toDigits (by decide) (by decide) h

/-! ### Decimals -/

namespace Decimal

/-- The failure of a text that is no decimal. -/
def parseError (text : String) : ErrorValue where
  code := .other "type.mismatch"
  message := "`" ++ text ++ "` is not a decimal literal"

/-- Reads the digits before and after the point. -/
def parseParts (text : String) (negative : Bool) (integer fraction : List Char) :
    Except ErrorValue Decimal :=
  if integer.isEmpty && fraction.isEmpty then .error (parseError text)
  else if !(integer ++ fraction).all Char.isDigit then .error (parseError text)
  else if h : fraction.length ≤ maxScale then
    match accumulate ⟨0, by decide⟩ (integer ++ fraction) with
    | none => .error (parseError text)
    | some mantissa => .ok ⟨if negative then wrappingNeg mantissa else mantissa, fraction.length, h⟩
  else .error (parseError text)

/-- Reads a decimal. -/
def parse (text : String) : Except ErrorValue Decimal :=
  let digits := unsigned (trim text.toList)
  parseParts text digits.1 (digits.2.takeWhile (· ≠ '.')) ((digits.2.dropWhile (· ≠ '.')).drop 1)

/-- The digits of a mantissa, with at least one before the point. -/
def padded (scale : ℕ) (digits : List Char) : List Char :=
  if digits.length ≤ scale then replicate (scale - digits.length + 1) '0' ++ digits
  else digits

/-- The decimal as it is written, without its sign. -/
def magnitudeText (number : Decimal) : List Char :=
  let digits := toDigits 10 (number.mantissa : ℤ).natAbs
  if number.scale = 0 then digits
  else
    let padded := padded number.scale digits
    padded.take (padded.length - number.scale) ++ '.' :: padded.drop (padded.length - number.scale)

/-- The decimal as it is written. -/
def toText (number : Decimal) : String :=
  String.ofList ((if (number.mantissa : ℤ) < 0 then ['-'] else []) ++ number.magnitudeText)

theorem length_padded (scale : ℕ) (digits : List Char) : scale < (padded scale digits).length ∨
    (padded scale digits).length = scale + 1 := by
  rw [padded]
  split_ifs with h
  · right
    rw [length_append, length_replicate]
    omega
  · left
    omega

theorem ofDigitChars_padded (scale : ℕ) (digits : List Char) :
    ofDigitChars 10 (padded scale digits) 0 = ofDigitChars 10 digits 0 := by
  rw [padded]
  split_ifs with h
  · rw [ofDigitChars_append, ofDigitChars_replicate_zero, mul_zero]
  · rfl

theorem isDigit_of_mem_padded {scale : ℕ} {digits : List Char}
    (h : ∀ c ∈ digits, c.isDigit = true) : ∀ c ∈ padded scale digits, c.isDigit = true := by
  intro c hc
  rw [padded] at hc
  split_ifs at hc with hlength
  · rcases mem_append.1 hc with hzero | hc
    · rw [eq_of_mem_replicate hzero]
      rfl
    · exact h c hc
  · exact h c hc

/-- The parts of a written decimal: the digits before the point, and those after it. -/
theorem magnitudeText_parts (number : Decimal) : ∃ integer fraction : List Char,
    integer ≠ [] ∧ (∀ c ∈ integer ++ fraction, c.isDigit = true) ∧
      fraction.length = number.scale ∧
      ofDigitChars 10 (integer ++ fraction) 0 = (number.mantissa : ℤ).natAbs ∧
      number.magnitudeText = integer ++ if number.scale = 0 then [] else '.' :: fraction := by
  have hdigits := fun c => @isDigit_of_mem_toDigits c (number.mantissa : ℤ).natAbs
  by_cases hscale : number.scale = 0
  · refine ⟨toDigits 10 (number.mantissa : ℤ).natAbs, [], toDigits_ne_nil, ?_, ?_, ?_, ?_⟩
    · rwa [append_nil]
    · rw [hscale, length_nil]
    · rw [append_nil, ofDigitChars_ten_toDigits]
    · rw [magnitudeText, if_pos hscale, if_pos hscale, append_nil]
  · have hlength := length_padded number.scale (toDigits 10 (number.mantissa : ℤ).natAbs)
    refine ⟨_, _, ?_, ?_, ?_, ?_, by rw [magnitudeText, if_neg hscale, if_neg hscale]⟩
    · rw [← length_pos_iff, length_take]
      omega
    · rw [take_append_drop]
      exact isDigit_of_mem_padded hdigits
    · rw [length_drop]
      omega
    · rw [take_append_drop, ofDigitChars_padded, ofDigitChars_ten_toDigits]

section Parts

variable {text : String} {negative : Bool} {integer fraction : List Char}

/-- A text of digits, with a minus sign or without, is read by its parts. -/
theorem parse_eq_parseParts (hinteger : integer ≠ [])
    (hdigits : ∀ c ∈ integer ++ fraction, c.isDigit = true)
    (htext : text.toList = (if negative then ['-'] else []) ++
      (integer ++ if fraction.length = 0 then [] else '.' :: fraction)) :
    parse text = parseParts text negative integer fraction := by
  obtain ⟨first, rest, rfl⟩ := exists_cons_of_ne_nil hinteger
  have htrim : trim text.toList = text.toList := by
    refine trim_eq fun c hc => ?_
    rw [htext, mem_append, mem_append] at hc
    rcases hc with hc | hc | hc
    · split_ifs at hc
      · rw [mem_singleton.1 hc]
        decide
      · cases hc
    · exact isWhitespace_of_isDigit (hdigits c (mem_append_left _ hc))
    · split_ifs at hc
      · cases hc
      · rcases mem_cons.1 hc with rfl | hc
        · decide
        · exact isWhitespace_of_isDigit (hdigits c (mem_append_right _ hc))
  have hunsigned : unsigned text.toList =
      (negative, first :: rest ++ if fraction.length = 0 then [] else '.' :: fraction) := by
    rw [htext]
    cases negative with
    | false => exact unsigned_of_isDigit (hdigits first (by simp))
    | true => rfl
  have hpoint : ∀ c ∈ first :: rest, (decide (c ≠ '.')) = true := fun c hc =>
    decide_eq_true (ne_of_isDigit (hdigits c (mem_append_left _ hc)) (by decide))
  rw [parse, htrim, hunsigned]
  simp only
  rw [takeWhile_append_of_pos hpoint, dropWhile_append_of_pos hpoint]
  split_ifs with hzero
  · rw [eq_nil_of_length_eq_zero hzero]
    simp
  · simp

theorem parseParts_of_isDigit (hinteger : integer ≠ [])
    (hdigits : ∀ c ∈ integer ++ fraction, c.isDigit = true) (hlength : fraction.length ≤ maxScale) :
    parseParts text negative integer fraction =
      ((checked (ofDigitChars 10 (integer ++ fraction) 0 : ℕ)).elim (.error (parseError text))
        fun mantissa =>
          .ok ⟨if negative then wrappingNeg mantissa else mantissa, fraction.length, hlength⟩) := by
  have hread : accumulate ⟨0, by decide⟩ (integer ++ fraction) =
      checked (ofDigitChars 10 (integer ++ fraction) 0 : ℕ) :=
    @accumulate_eq _ 0 (by decide)
  rw [parseParts, if_neg (by simp [hinteger]),
    if_neg (by rw [all_eq_true.2 hdigits]; decide), dif_pos hlength, hread]
  cases checked (ofDigitChars 10 (integer ++ fraction) 0 : ℕ) <;> rfl

end Parts

/-- What a written decimal is read to. -/
theorem parse_toText (number : Decimal) :
    parse number.toText =
      if (number.mantissa : ℤ) = -2 ^ 127 then .error (parseError number.toText)
      else .ok number := by
  obtain ⟨integer, fraction, hinteger, hdigits, hlength, hvalue, htext⟩ :=
    number.magnitudeText_parts
  have hfits := number.mantissa.2
  have hlist : number.toText.toList =
      (if decide ((number.mantissa : ℤ) < 0) = true then ['-'] else []) ++
        (integer ++ if fraction.length = 0 then [] else '.' :: fraction) := by
    rw [toText, String.toList_ofList, htext, hlength]
    simp only [decide_eq_true_eq]
  rw [parse_eq_parseParts hinteger hdigits hlist,
    parseParts_of_isDigit hinteger hdigits (hlength.trans_le number.scale_le), hvalue]
  by_cases hleast : (number.mantissa : ℤ) = -2 ^ 127
  · have hout : ¬FitsI128 ((number.mantissa : ℤ).natAbs : ℤ) := by
      unfold FitsI128
      omega
    rw [if_pos hleast, checked_eq_none.2 hout, elim_none]
  · have hin : FitsI128 ((number.mantissa : ℤ).natAbs : ℤ) := by
      unfold FitsI128 at hfits ⊢
      omega
    rw [if_neg hleast, checked_of_fits hin, elim_some]
    obtain ⟨mantissa, scale, hscale⟩ := number
    simp only [Except.ok.injEq, Decimal.mk.injEq, decide_eq_true_eq] at hlength ⊢
    refine ⟨?_, hlength⟩
    rw [Subtype.ext_iff]
    split_ifs with hsign
    · rw [wrappingNeg_of_nonneg (Int.natCast_nonneg _)]
      simp only
      omega
    · simp only
      omega

end Decimal

end OnoSendai
