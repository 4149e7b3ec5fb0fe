import Mathlib.Data.List.Basic

/-!
# Identities

Plans, actions, effects, recovery assets and checks are identified by a truncated SHA-256 over
the facts that make the thing what it is, rendered as lowercase hexadecimal. The hash itself is
a third-party function; the model takes it as a parameter and assumes nothing about it.
-/

namespace OnoSendai

/-- The hash function the program calls on the UTF-8 bytes of a text. -/
abbrev Sha256 : Type :=
  String → Vector UInt8 32

/-- The separator between two contributions inside a section. -/
def unitSeparator : Char :=
  Char.ofNat 0x1f

/-- The separator between two sections of a plan digest. -/
def sectionSeparator : Char :=
  Char.ofNat 0x1e

/-! ### Hexadecimal text -/

/-- The lowercase hexadecimal digit of a number below sixteen. -/
def hexDigit (n : Fin 16) : Char :=
  "0123456789abcdef".toList.get (n.cast (by decide))

/-- A byte as two lowercase hexadecimal characters. -/
def hexByte (byte : UInt8) : List Char :=
  [hexDigit ⟨byte.toNat / 16, by have := byte.toNat_lt; omega⟩,
    hexDigit ⟨byte.toNat % 16, by omega⟩]

/-- Whether a character is a lowercase hexadecimal digit. -/
def isHexChar (c : Char) : Bool :=
  ('0' ≤ c && c ≤ '9') || ('a' ≤ c && c ≤ 'f')

/-- The hexadecimal width of a full identity. -/
def fullWidth : Nat :=
  16

/-- Whether a text is a plausible identity body: lowercase hexadecimal, non-empty, bounded. -/
def isHex (text : String) : Bool :=
  !text.toList.isEmpty && text.toList.length ≤ fullWidth && text.toList.all isHexChar

theorem isHexChar_hexDigit (n : Fin 16) : isHexChar (hexDigit n) = true := by
  revert n
  decide

/-- The hexadecimal rendering of a hash, two characters a byte. -/
def hexText (bytes : List UInt8) : String :=
  String.ofList (bytes.flatMap hexByte)

/-- Digests `parts` into `width` hexadecimal characters, domain-separated by `tag`. -/
def digest (sha256 : Sha256) (tag : String) (parts : List String) (width : Nat) : String :=
  let text := tag.push unitSeparator ++ String.join (parts.map (·.push unitSeparator))
  String.ofList (((sha256 text).toList.take ((width + 1) / 2)).flatMap hexByte |>.take width)

theorem all_isHexChar_flatMap_hexByte (bytes : List UInt8) :
    (bytes.flatMap hexByte).all isHexChar = true := by
  simp [List.all_flatMap, hexByte, isHexChar_hexDigit]

theorem length_flatMap_hexByte (bytes : List UInt8) :
    (bytes.flatMap hexByte).length = 2 * bytes.length := by
  induction bytes with
  | nil => rfl
  | cons byte bytes ih =>
    simp only [List.flatMap_cons, List.length_append, ih, List.length_cons, hexByte,
      List.length_nil]
    omega

theorem isHex_digest (sha256 : Sha256) (tag : String) (parts : List String) :
    isHex (digest sha256 tag parts fullWidth) = true := by
  simp only [digest, fullWidth, isHex, String.toList_ofList]
  generalize sha256 _ = hash
  have hlen : ((hash.toList.take ((16 + 1) / 2)).flatMap hexByte).length = 16 := by
    rw [length_flatMap_hexByte]
    simp
  rw [List.take_of_length_le (Nat.le_of_eq hlen), all_isHexChar_flatMap_hexByte, hlen]
  have hne : (hash.toList.take ((16 + 1) / 2)).flatMap hexByte ≠ [] := by
    intro h
    simp [h] at hlen
  simpa using hne

/-! ### Identities of each kind -/

/-- The kinds of hexadecimal identity. -/
inductive IdKind
  | plan
  | action
  | effect
  | recoveryAsset
  | check

/-- The tag that separates the hashes of one kind from those of another. -/
def IdKind.tag : IdKind → String
  | plan => "ono.change-plan"
  | action => "ono.plan-action"
  | effect => "ono.proposed-effect"
  | recoveryAsset => "recovery/"
  | check => "ono.verification-check"

/-- The marker a rendered reference of this kind carries in front of its body. -/
def IdKind.marker : IdKind → String
  | plan => "plan/"
  | action => "action/"
  | effect => "effect/"
  | recoveryAsset => "recovery/"
  | check => "check/"

/-- An identity of one kind: a body of lowercase hexadecimal. -/
@[ext]
structure HexId (kind : IdKind) where
  body : String
  isHex_body : isHex body = true
deriving DecidableEq

abbrev PlanId : Type := HexId .plan
abbrev ActionId : Type := HexId .action
abbrev EffectId : Type := HexId .effect
abbrev RecoveryAssetId : Type := HexId .recoveryAsset
abbrev CheckId : Type := HexId .check

/-- The text after `marker`, when the text starts with it. -/
def stripMarker (marker text : List Char) : Option (List Char) :=
  if marker.isPrefixOf text then some (text.drop marker.length) else none

namespace HexId

variable {kind : IdKind}

/-- Derives an identity from the facts that make this thing what it is. -/
def derive (sha256 : Sha256) (parts : List String) : HexId kind :=
  ⟨digest sha256 kind.tag parts fullWidth, isHex_digest sha256 kind.tag parts⟩

/-- Reads an identity back, with or without its rendered marker. -/
def parse (text : String) : Option (HexId kind) :=
  let body := String.ofList ((stripMarker kind.marker.toList text.toList).getD text.toList)
  if h : isHex body = true then some ⟨body, h⟩ else none

/-- The short reference: four characters, or the whole body when it is shorter. -/
def short (id : HexId kind) : String :=
  String.ofList (id.body.toList.take 4)

theorem stripMarker_body (id : HexId kind) :
    stripMarker kind.marker.toList id.body.toList = none := by
  have hall : id.body.toList.all isHexChar = true := by
    have := id.isHex_body
    simp only [isHex, Bool.and_eq_true] at this
    exact this.2
  have hslash : '/' ∈ kind.marker.toList := by
    cases kind <;> decide
  refine if_neg fun h => ?_
  obtain ⟨rest, hrest⟩ := List.isPrefixOf_iff_prefix.1 h
  rw [← hrest, List.all_append, Bool.and_eq_true, List.all_eq_true] at hall
  have := hall.1 '/' hslash
  revert this
  decide

/-- **An identity is read back from its own body.** -/
@[simp]
theorem parse_body (id : HexId kind) : parse id.body = some id := by
  simp [parse, stripMarker_body, id.isHex_body]

end HexId

end OnoSendai
