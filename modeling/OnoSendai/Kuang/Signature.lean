import Mathlib.Data.List.Sort
import Mathlib.Data.String.Basic
import OnoSendai.Kuang.Occurrence
import OnoSendai.Lib.Labelled
import OnoSendai.Link.Trust

/-!
# What a package signature covers

A key signs a canonical description of a package: its id, its version, its publisher and the digest
of every file, one line each (`ono_kuang_protocol::signature`). A path carries no control character,
but nothing keeps a line break out of the other fields. What an installed package is pinned to is a
digest over the paths and digests of its files, one after another with nothing between them
(`ono_kuang_protocol::artifact`).
-/

namespace OnoSendai.Kuang

open Labelled

/-! ### Files -/

/-- One file of a package artifact, with the digest of its contents. -/
structure FileDigest where
  path : String
  sha256 : String

/-- The hash of bytes. -/
abbrev ByteHash : Type :=
  ByteArray → Vector UInt8 32

namespace FileDigest

/-- The order of files: by path, then by digest. -/
def Before (one two : FileDigest) : Prop :=
  one.path < two.path ∨ one.path = two.path ∧ one.sha256 ≤ two.sha256

instance (one two : FileDigest) : Decidable (Before one two) :=
  inferInstanceAs (Decidable (_ ∨ _ ∧ _))

/-- The digest of bytes under a path. -/
def ofBytes (sha256 : ByteHash) (path : String) (bytes : ByteArray) : FileDigest where
  path := path
  sha256 := hexText (sha256 bytes).toList

end FileDigest

/-- What stands in a directory under a name. -/
inductive Node
  | file (content : Option ByteArray)
  | link (target : ByteArray)
  | directory (entries : List (String × Node))
  | unknown

/-- The files that state something about an artifact and are no part of it. -/
def isSignature (relative : String) : Bool :=
  relative = "signature.yaml" || relative = "signature.sigstore.json"

section Artifact

variable (sha256 : ByteHash)

mutual

/-- The files of what stands under a path. -/
def collectNode (relative : String) : Node → List FileDigest
  | .file (some bytes) => [.ofBytes sha256 relative bytes]
  | .file none => [⟨relative, "unreadable"⟩]
  | .link target => [.ofBytes sha256 relative target]
  | .directory entries => collectArtifactFiles relative entries
  | .unknown => []
termination_by structural node => node

/-- The files under a path, as the directory is walked. -/
def collectArtifactFiles (beneath : String) : List (String × Node) → List FileDigest
  | [] => []
  | (name, node) :: rest =>
    let relative := if beneath = "" then name else beneath ++ "/" ++ name
    (if isSignature relative then [] else collectNode relative node) ++
      collectArtifactFiles beneath rest
termination_by structural entries => entries

end

/-- Every file a package artifact is made of, sorted by path. -/
def artifactFiles (directory : List (String × Node)) : List FileDigest :=
  (collectArtifactFiles sha256 "" directory).insertionSort FileDigest.Before

/-- What is digested of a list of files. -/
def contentPreimage (files : List FileDigest) : ByteArray :=
  (String.join (files.map fun file => file.path ++ file.sha256)).toByteArray

end Artifact

/-! ### Descriptions -/

/-- The failure of a signature. -/
def invalidSignature (message : String) : ErrorValue where
  code := .other "package.signature_invalid"
  message := message

/-- Reads a hexadecimal digit. -/
def unhexDigit (what : String) (c : Char) : Except ErrorValue UInt8 :=
  match Link.toDigit c with
  | some digit => .ok (.ofNat digit)
  | none =>
    .error (invalidSignature ("the " ++ what ++ " carries \x60" ++
      String.singleton (Char.ofNat ((String.utf8EncodeChar c).headD 0).toNat) ++
      "\x60, which is not a hex digit"))

/-- Reads pairs of hexadecimal digits. -/
def unhexPairs (what : String) : List Char → Except ErrorValue (List UInt8)
  | [] => .ok []
  | [c] => do
    let _ ← unhexDigit what c
    return []
  | high :: low :: rest => do
    let high ← unhexDigit what high
    let low ← unhexDigit what low
    let bytes ← unhexPairs what rest
    return (16 * high + low) :: bytes

/-- Reads a text as a number of bytes in hexadecimal. -/
def unhex (count : ℕ) (text what : String) : Except ErrorValue (List UInt8) :=
  if text.utf8ByteSize = count * 2 then unhexPairs what text.toList
  else
    .error (invalidSignature ("the " ++ what ++ " is " ++ toString text.utf8ByteSize ++
      " hex characters and an ed25519 " ++ what ++ " is " ++ toString (count * 2)))

/-- Whether a character is a control character. -/
def isControl (c : Char) : Bool :=
  c.toNat < 0x20 || 0x7f ≤ c.toNat && c.toNat < 0xa0

/-- What a signature commits to. -/
structure SignedPackage where
  package : String
  version : String
  publisher : String
  files : List FileDigest

section Describe

variable (escapeDebug : String → String)

/-- Why a file cannot be described. -/
def fileError (file : FileDigest) : Option ErrorValue :=
  if file.path = "" || file.path.toList.any isControl then
    some (invalidSignature ("\x60" ++ escapeDebug file.path ++
      "\x60 cannot be described in a signature: a path carries no control characters and is " ++
      "never empty"))
  else
    match unhex 32 file.sha256 "file digest" with
    | .ok _ => none
    | .error error => some error

namespace SignedPackage

/-- Describes a package for signing. -/
def new (package version publisher : String) (files : List FileDigest) :
    Except ErrorValue SignedPackage :=
  let files := files.insertionSort FileDigest.Before
  match files.findSome? (fileError escapeDebug) with
  | some error => .error error
  | none =>
    match (files.zip files.tail).find? fun pair => pair.1.path = pair.2.path with
    | some pair =>
      .error (invalidSignature ("\x60" ++ pair.1.path ++
        "\x60 appears twice in the file list, so what is signed is ambiguous"))
    | none => .ok ⟨package, version, publisher, files⟩

/-- The line of a file. -/
def fileLine (file : FileDigest) : String :=
  "file " ++ file.sha256 ++ " " ++ file.path ++ "\n"

/-- The text whose bytes a key signs. -/
def canonicalText (signed : SignedPackage) : String :=
  "kuang-signature/1\npackage " ++ signed.package ++ "\nversion " ++ signed.version ++
    "\npublisher " ++ signed.publisher ++ "\n" ++ String.join (signed.files.map fileLine)

/-- The bytes a key signs. -/
def canonicalBytes (signed : SignedPackage) : ByteArray :=
  signed.canonicalText.toByteArray

/-- A description that was accepted. -/
def Accepted (signed : SignedPackage) : Prop :=
  ∃ files, new escapeDebug signed.package signed.version signed.publisher files = .ok signed

end SignedPackage

end Describe

/-! ### Checking -/

/-- What a manifest says of its package. -/
structure PackageSection where
  id : String
  version : String
  publisher : String

/-- A signature over a description, with the key that made it. -/
structure PackageSignature where
  key : List UInt8
  signed : SignedPackage
  bytes : List UInt8

/-- Whether a key made a signature over bytes. -/
abbrev Verifier : Type :=
  List UInt8 → ByteArray → List UInt8 → Bool

/-- Why a file of an artifact is not the one that was signed. -/
def coverError (signed : List FileDigest) (actual : FileDigest) : Option ErrorValue :=
  match signed.find? fun file => file.path = actual.path with
  | none =>
    some (invalidSignature ("\x60" ++ actual.path ++
      "\x60 is part of this package and the signature does not cover it"))
  | some file =>
    if file.sha256 = actual.sha256 then none
    else some (invalidSignature ("\x60" ++ actual.path ++ "\x60 is not the file that was signed"))

/-- Why a signed file is not part of an artifact. -/
def absenceError (files : List FileDigest) (signed : FileDigest) : Option ErrorValue :=
  if files.any fun actual => actual.path = signed.path then none
  else
    some (invalidSignature ("the signature covers \x60" ++ signed.path ++
      "\x60 and this package does not have it"))

namespace PackageSignature

variable (verifies : Verifier)

/-- Whether the key a signature names made it over its description. -/
def verifySelf (signature : PackageSignature) : Except ErrorValue Unit :=
  if verifies signature.key signature.signed.canonicalBytes signature.bytes then .ok ()
  else
    .error (invalidSignature ("the signature was not made by ed25519:" ++ hexText signature.key ++
      " over this package's description"))

/-- Whether a signature belongs to an artifact. -/
def check (signature : PackageSignature) (manifest : PackageSection) (files : List FileDigest) :
    Except ErrorValue Unit := do
  signature.verifySelf verifies
  if signature.signed.package ≠ manifest.id then
    .error (invalidSignature ("the signature covers \x60" ++ signature.signed.package ++
      "\x60 and this package is \x60" ++ manifest.id ++ "\x60"))
  else if signature.signed.version ≠ manifest.version then
    .error (invalidSignature ("the signature covers \x60" ++ signature.signed.package ++
      "\x60 version " ++ signature.signed.version ++ " and this package is version " ++
      manifest.version))
  else if signature.signed.publisher ≠ manifest.publisher then
    .error (invalidSignature ("the signature claims publisher \x60" ++ signature.signed.publisher ++
      "\x60 and the manifest declares \x60" ++ manifest.publisher ++ "\x60"))
  else
    match files.findSome? (coverError signature.signed.files) with
    | some error => .error error
    | none =>
      match signature.signed.files.findSome? (absenceError files) with
      | some error => .error error
      | none => .ok ()

end PackageSignature

/-! ### What is signed -/

/-- The fields of a description that line breaks are in are among those said to carry them. -/
structure BreaksOnlyIn (package version publisher : Bool) (signed : SignedPackage) : Prop where
  package : package = false → '\n' ∉ signed.package.toList
  version : version = false → '\n' ∉ signed.version.toList
  publisher : publisher = false → '\n' ∉ signed.publisher.toList

section Signed

variable {escapeDebug : String → String} {signed other : SignedPackage} {file : FileDigest}
  {files : List FileDigest} {what text : String} {chars : List Char}

theorem isSome_toDigit_of_unhexDigit {c : Char} {digit : UInt8}
    (h : unhexDigit what c = .ok digit) : (Link.toDigit c).isSome := by
  rw [unhexDigit] at h
  cases hdigit : Link.toDigit c with
  | some digit => rfl
  | none =>
    rw [hdigit] at h
    cases h

/-- What is read as hexadecimal is digits. -/
theorem isSome_toDigit_of_unhexPairs {bytes : List UInt8} (h : unhexPairs what chars = .ok bytes) :
    ∀ c ∈ chars, (Link.toDigit c).isSome := by
  induction chars using unhexPairs.induct generalizing bytes with
  | case1 => simp
  | case2 c =>
    rw [unhexPairs] at h
    obtain ⟨digit, hdigit, -⟩ := ok_of_bind h
    simpa using isSome_toDigit_of_unhexDigit hdigit
  | case3 high low rest ih =>
    rw [unhexPairs] at h
    obtain ⟨first, hfirst, h⟩ := ok_of_bind h
    obtain ⟨second, hsecond, h⟩ := ok_of_bind h
    obtain ⟨others, hothers, -⟩ := ok_of_bind h
    exact List.forall_mem_cons.2 ⟨isSome_toDigit_of_unhexDigit hfirst,
      List.forall_mem_cons.2 ⟨isSome_toDigit_of_unhexDigit hsecond, ih hothers⟩⟩

/-- A file that can be described has a path and a digest of one line. -/
theorem notMem_of_fileError (h : fileError escapeDebug file = none) :
    '\n' ∉ file.path.toList ∧ '\n' ∉ file.sha256.toList ∧ ' ' ∉ file.sha256.toList := by
  rw [fileError] at h
  split_ifs at h with hpath
  rw [Bool.or_eq_true, not_or] at hpath
  cases hread : unhex 32 file.sha256 "file digest" with
  | error error =>
    rw [hread] at h
    cases h
  | ok bytes =>
    rw [unhex] at hread
    split_ifs at hread
    have hdigits := isSome_toDigit_of_unhexPairs hread
    refine ⟨fun hmem => hpath.2 (List.any_eq_true.2 ⟨_, hmem, rfl⟩), fun hmem => ?_, fun hmem => ?_⟩
    · exact absurd (hdigits _ hmem) (by decide)
    · exact absurd (hdigits _ hmem) (by decide)

/-- What a description is accepted for. -/
theorem SignedPackage.new_eq_ok {package version publisher : String}
    (h : SignedPackage.new escapeDebug package version publisher files = .ok signed) :
    signed.package = package ∧ signed.version = version ∧ signed.publisher = publisher ∧
      signed.files = files.insertionSort FileDigest.Before ∧
      (∀ file ∈ signed.files, fileError escapeDebug file = none) ∧
      (signed.files.zip signed.files.tail).find? (fun pair => pair.1.path = pair.2.path) = none := by
  rw [SignedPackage.new] at h
  cases herror : (files.insertionSort FileDigest.Before).findSome? (fileError escapeDebug) with
  | some error =>
    rw [herror] at h
    cases h
  | none =>
    rw [herror] at h
    dsimp only at h
    cases htwice : ((files.insertionSort FileDigest.Before).zip
        (files.insertionSort FileDigest.Before).tail).find? fun pair =>
          pair.1.path = pair.2.path with
    | some pair =>
      rw [htwice] at h
      cases h
    | none =>
      rw [htwice] at h
      obtain rfl := Except.ok.inj h
      exact ⟨rfl, rfl, rfl, rfl, List.findSome?_eq_none_iff.1 herror, htwice⟩

instance : Std.Total FileDigest.Before where
  total one two := by
    rcases lt_trichotomy one.path two.path with h | h | h
    · exact .inl (.inl h)
    · rcases le_total one.sha256 two.sha256 with h' | h'
      · exact .inl (.inr ⟨h, h'⟩)
      · exact .inr (.inr ⟨h.symm, h'⟩)
    · exact .inr (.inl h)

instance : IsTrans FileDigest FileDigest.Before where
  trans one two three := by
    rintro (h | ⟨h, hdigest⟩) (h' | ⟨h', hdigest'⟩)
    · exact .inl (h.trans h')
    · exact .inl (h' ▸ h)
    · exact .inl (h ▸ h')
    · exact .inr ⟨h.trans h', hdigest.trans hdigest'⟩

/-- Sorted files no two neighbours of which have one path have paths of their own. -/
theorem nodup_of_sorted (hsorted : files.Pairwise FileDigest.Before)
    (h : (files.zip files.tail).find? (fun pair => pair.1.path = pair.2.path) = none) :
    (files.map FileDigest.path).Nodup := by
  rw [List.find?_eq_none] at h
  have hbelow : files.Pairwise fun one two => one.path < two.path := by
    induction files with
    | nil => exact .nil
    | cons first rest ih =>
      rw [List.pairwise_cons] at hsorted
      have hrest : rest.Pairwise fun one two => one.path < two.path := by
        refine ih hsorted.2 fun pair hpair => h pair ?_
        cases rest with
        | nil => cases hpair
        | cons next rest => exact List.mem_cons_of_mem _ hpair
      refine List.pairwise_cons.2 ⟨fun other hother => ?_, hrest⟩
      cases rest with
      | nil => cases hother
      | cons next rest =>
        have hne : first.path ≠ next.path := by
          simpa using h (first, next) List.mem_cons_self
        have hnext : first.path < next.path := by
          rcases hsorted.1 next List.mem_cons_self with hlt | ⟨heq, -⟩
          · exact hlt
          · exact absurd heq hne
        rcases List.mem_cons.1 hother with rfl | hother
        · exact hnext
        · exact hnext.trans ((List.pairwise_cons.1 hrest).1 other hother)
  exact List.pairwise_map.2 (hbelow.imp fun hlt => hlt.ne)

theorem SignedPackage.Accepted.line (h : signed.Accepted escapeDebug) (hfile : file ∈ signed.files) :
    '\n' ∉ file.path.toList ∧ '\n' ∉ file.sha256.toList ∧ ' ' ∉ file.sha256.toList := by
  obtain ⟨files, hnew⟩ := h
  exact notMem_of_fileError ((SignedPackage.new_eq_ok hnew).2.2.2.2.1 file hfile)

theorem SignedPackage.Accepted.nodup (h : signed.Accepted escapeDebug) :
    (signed.files.map FileDigest.path).Nodup := by
  obtain ⟨files, hnew⟩ := h
  obtain ⟨-, -, -, hsorted, -, htwice⟩ := SignedPackage.new_eq_ok hnew
  refine nodup_of_sorted ?_ htwice
  rw [hsorted]
  exact List.pairwise_insertionSort _ _

/-- The line of a file without its end. -/
def lineBody (file : FileDigest) : List Char :=
  "file ".toList ++ (file.sha256.toList ++ ' ' :: file.path.toList)

theorem lineBody_inj {one two : FileDigest} (hone : ' ' ∉ one.sha256.toList)
    (htwo : ' ' ∉ two.sha256.toList) : lineBody one = lineBody two ↔ one = two := by
  unfold lineBody
  generalize "file ".toList = opening
  rw [List.append_right_inj, Separated.append_cons_inj hone htwo, String.toList_inj,
    String.toList_inj]
  cases one
  cases two
  simp [and_comm]

theorem toList_join_fileLine (files : List FileDigest) :
    '\n' :: (String.join (files.map SignedPackage.fileLine)).toList =
      Separated.headed '\n' (files.map lineBody) ++ ['\n'] := by
  have hend : "\n".toList = ['\n'] := by decide
  have hspace : " ".toList = [' '] := by decide
  induction files with
  | nil => simp [Separated.headed]
  | cons file files ih =>
    rw [List.map_cons, List.map_cons, String.join_cons, Separated.headed_cons, List.cons_append,
      List.append_assoc, ← ih, SignedPackage.fileLine]
    unfold lineBody
    simp only [String.toList_append, hend, hspace, List.append_assoc, List.cons_append,
      List.nil_append]

/-- The text that is signed, by its lines. -/
theorem toList_canonicalText (signed : SignedPackage) :
    signed.canonicalText.toList =
      ("kuang-signature/1\npackage ".toList ++
        (signed.package.toList ++ '\n' :: ("version ".toList ++ signed.version.toList)) ++
        Separated.headed '\n' (("publisher ".toList ++ signed.publisher.toList) ::
          signed.files.map lineBody)) ++ ['\n'] := by
  have hversion : "\nversion ".toList = '\n' :: "version ".toList := by decide
  have hpublisher : "\npublisher ".toList = '\n' :: "publisher ".toList := by decide
  have hend : "\n".toList = ['\n'] := by decide
  unfold SignedPackage.canonicalText
  generalize "kuang-signature/1\npackage " = opening
  generalize "\nversion " = version at hversion ⊢
  generalize "\npublisher " = publisher at hpublisher ⊢
  simp only [Separated.headed_cons, String.toList_append, hversion, hpublisher, hend,
    List.append_assoc, List.cons_append, List.nil_append, ← toList_join_fileLine]

/-- **What the signed bytes tell.** Accepted descriptions with the same bytes have the same publisher
and files where no publisher has a line break, and the same package and version where no package has
one or no version does. -/
theorem eq_of_canonicalBytes_eq {package version : Bool} (hfields : package = false ∨ version = false)
    (hsigned : signed.Accepted escapeDebug) (hother : other.Accepted escapeDebug)
    (hbreaks : BreaksOnlyIn package version false signed)
    (hbreaks' : BreaksOnlyIn package version false other)
    (h : signed.canonicalBytes = other.canonicalBytes) : signed = other := by
  have hpublisher {one : SignedPackage} (hone : BreaksOnlyIn package version false one) :
      '\n' ∉ "publisher ".toList ++ one.publisher.toList ∧
        ¬"file ".toList <+: "publisher ".toList ++ one.publisher.toList := by
    refine ⟨List.not_mem_append (by decide) (hone.publisher rfl), fun hle => ?_⟩
    · obtain ⟨rest, hrest⟩ := hle
      exact absurd (congrArg List.head? hrest) (by simp)
  have hfile {one : SignedPackage} (hone : one.Accepted escapeDebug) :
      ∀ line ∈ one.files.map lineBody, '\n' ∉ line ∧ "file ".toList <+: line := by
    rintro _ hline
    obtain ⟨file, hfile, rfl⟩ := List.mem_map.1 hline
    obtain ⟨hpath, hdigest, -⟩ := hone.line hfile
    refine ⟨?_, List.prefix_append _ _⟩
    unfold lineBody
    simp [hpath, hdigest]
  have hchars := String.toList_inj.2 (String.toByteArray_inj.1 h)
  rw [toList_canonicalText, toList_canonicalText, List.append_left_inj,
    Separated.append_headed_inj (hpublisher hbreaks) (hpublisher hbreaks') (hfile hsigned)
      (hfile hother), List.append_right_inj, List.append_right_inj, String.toList_inj] at hchars
  obtain ⟨hnames, hpublisher, hlines⟩ := hchars
  have hfiles : signed.files = other.files :=
    Separated.eq_of_map_eq (fun one hone two htwo hsame =>
      (lineBody_inj (hsigned.line hone).2.2 (hother.line htwo).2.2).1 hsame) hlines
  have hpackage : signed.package.toList = other.package.toList ∧
      "version ".toList ++ signed.version.toList = "version ".toList ++ other.version.toList := by
    rcases hfields with rfl | rfl
    · exact (Separated.append_cons_inj (hbreaks.package rfl) (hbreaks'.package rfl)).1 hnames
    · refine (Separated.append_cons_last_inj ?_ ?_).1 hnames
      · exact List.not_mem_append (by decide) (hbreaks.version rfl)
      · exact List.not_mem_append (by decide) (hbreaks'.version rfl)
  rw [String.toList_inj, List.append_right_inj, String.toList_inj] at hpackage
  cases signed
  cases other
  simp_all

/-- A line break in a publisher spells a signed file. -/
theorem canonicalBytes_publisher (package version publisher path digest : String) :
    SignedPackage.canonicalBytes ⟨package, version, publisher, [⟨path, digest⟩]⟩ =
      SignedPackage.canonicalBytes
        ⟨package, version, publisher ++ "\nfile " ++ digest ++ " " ++ path, []⟩ := by
  have hline : "\nfile ".toList = '\n' :: "file ".toList := by decide
  have hspace : " ".toList = [' '] := by decide
  refine congrArg String.toByteArray (String.toList_inj.1 ?_)
  rw [toList_canonicalText, toList_canonicalText]
  unfold lineBody
  generalize "\nfile " = file at hline ⊢
  generalize " " = space at hspace ⊢
  simp only [List.map_cons, List.map_nil, Separated.headed_cons, String.toList_append, hline,
    hspace, List.append_assoc, List.cons_append, List.nil_append]

/-- A line break moves from a version to a package. -/
theorem canonicalBytes_package (package version version' publisher : String)
    (files : List FileDigest) :
    SignedPackage.canonicalBytes ⟨package, version ++ "\nversion " ++ version', publisher, files⟩ =
      SignedPackage.canonicalBytes
        ⟨package ++ "\nversion " ++ version, version', publisher, files⟩ := by
  have hversion : "\nversion ".toList = '\n' :: "version ".toList := by decide
  refine congrArg String.toByteArray (String.toList_inj.1 ?_)
  rw [toList_canonicalText, toList_canonicalText]
  generalize "\nversion " = line at hversion ⊢
  simp only [String.toList_append, hversion, List.append_assoc, List.cons_append]

/-- A digest of sixty-four zeros. -/
def zeros : String :=
  String.ofList (List.replicate 64 '0')

theorem accepted_of_nil (package version publisher : String) :
    SignedPackage.Accepted escapeDebug ⟨package, version, publisher, []⟩ :=
  ⟨[], rfl⟩

theorem fileError_eq_none {file : FileDigest} {bytes : List UInt8}
    (hpath : (decide (file.path = "") || file.path.toList.any isControl) = false)
    (hread : unhex 32 file.sha256 "file digest" = .ok bytes) :
    fileError escapeDebug file = none := by
  rw [fileError, hpath, if_neg Bool.false_ne_true, hread]

theorem accepted_of_singleton (package version publisher : String) :
    SignedPackage.Accepted escapeDebug ⟨package, version, publisher, [⟨"f", zeros⟩]⟩ := by
  have hread : ∃ bytes, unhex 32 zeros "file digest" = .ok bytes := by
    have hok : (unhex 32 zeros "file digest").isOk = true := by decide +kernel
    cases hread : unhex 32 zeros "file digest" with
    | ok bytes => exact ⟨bytes, rfl⟩
    | error error =>
      rw [hread] at hok
      cases hok
  obtain ⟨bytes, hread⟩ := hread
  have hnone : fileError escapeDebug ⟨"f", zeros⟩ = none :=
    fileError_eq_none (by decide +kernel) hread
  refine ⟨[⟨"f", zeros⟩], ?_⟩
  simp [SignedPackage.new, hnone]

/-- **Which fields may carry line breaks**: accepted descriptions are told by their bytes when no
publisher has a line break, and no package or no version has one. -/
theorem canonicalBytes_inj_iff (escapeDebug : String → String) (package version publisher : Bool) :
    (∀ signed other : SignedPackage, signed.Accepted escapeDebug → other.Accepted escapeDebug →
        BreaksOnlyIn package version publisher signed →
        BreaksOnlyIn package version publisher other →
          signed.canonicalBytes = other.canonicalBytes → signed = other) ↔
      publisher = false ∧ (package = false ∨ version = false) := by
  constructor
  · intro h
    refine ⟨?_, ?_⟩
    · by_contra htrue
      rw [Bool.not_eq_false] at htrue
      subst htrue
      have hsame := h ⟨"p", "1", "u", [⟨"f", zeros⟩]⟩ _
        (accepted_of_singleton _ _ _) (accepted_of_nil _ _ _)
        ⟨fun _ => by decide, fun _ => by decide, nofun⟩
        ⟨fun _ => by decide, fun _ => by decide, nofun⟩ (canonicalBytes_publisher ..)
      cases congrArg SignedPackage.files hsame
    · by_contra hboth
      rw [not_or, Bool.not_eq_false, Bool.not_eq_false] at hboth
      obtain ⟨rfl, rfl⟩ := hboth
      have hsame := h ⟨"a", "1" ++ "\nversion " ++ "2", "u", []⟩ _
        (accepted_of_nil _ _ _) (accepted_of_nil _ _ _) ⟨nofun, nofun, fun _ => by decide⟩
        ⟨nofun, nofun, fun _ => by decide⟩ (canonicalBytes_package ..)
      exact absurd (congrArg SignedPackage.version hsame) (by decide +kernel)
  · rintro ⟨rfl, hfields⟩ signed other hsigned hother hbreaks hbreaks' heq
    exact eq_of_canonicalBytes_eq hfields hsigned hother hbreaks hbreaks' heq

end Signed

/-! ### What is pinned -/

/-- What stands after a file: the path of the next one, or a character that is in no name. -/
def leading : List FileDigest → List Char
  | [] => ['\x00']
  | file :: _ => file.path.toList

/-- Whether two file lists cannot be mistaken for each other: the first files in which they differ
have one path, or neither goes on as the other does. -/
def FilesApart : List FileDigest → List FileDigest → Prop
  | one :: ones, two :: twos =>
    (one.path = two.path ∨
      Parted (one.path.toList ++ (one.sha256.toList ++ leading ones))
        (two.path.toList ++ (two.sha256.toList ++ leading twos))) ∧
      (one = two → FilesApart ones twos)
  | _, _ => True

/-- A digest as the files of an artifact have it. -/
def IsDigest (text : String) : Prop :=
  text = "unreadable" ∨ ∃ bytes : Vector UInt8 32, text = hexText bytes.toList

section Pinned

variable {sha256 : ByteHash} {directory directory' : List (String × Node)}
  {files others : List FileDigest} {one two : String}

mutual

theorem isDigest_collectNode (relative : String) :
    ∀ node : Node, ∀ file ∈ collectNode sha256 relative node, IsDigest file.sha256
  | .file (some bytes), file, hfile => by
    rw [collectNode, List.mem_singleton] at hfile
    subst hfile
    exact .inr ⟨_, rfl⟩
  | .file none, file, hfile => by
    rw [collectNode, List.mem_singleton] at hfile
    subst hfile
    exact .inl rfl
  | .link target, file, hfile => by
    rw [collectNode, List.mem_singleton] at hfile
    subst hfile
    exact .inr ⟨_, rfl⟩
  | .directory entries, file, hfile => by
    rw [collectNode] at hfile
    exact isDigest_collectArtifactFiles relative entries file hfile
  | .unknown, file, hfile => by
    rw [collectNode] at hfile
    cases hfile

theorem isDigest_collectArtifactFiles (beneath : String) :
    ∀ entries : List (String × Node), ∀ file ∈ collectArtifactFiles sha256 beneath entries,
      IsDigest file.sha256
  | [], file, hfile => by
    rw [collectArtifactFiles] at hfile
    cases hfile
  | (name, node) :: rest, file, hfile => by
    rw [collectArtifactFiles] at hfile
    rcases List.mem_append.1 hfile with hfile | hfile
    · generalize (if beneath = "" then name else beneath ++ "/" ++ name) = relative at hfile
      split_ifs at hfile
      · cases hfile
      · exact isDigest_collectNode relative node file hfile
    · exact isDigest_collectArtifactFiles beneath rest file hfile

end

theorem isDigest_artifactFiles : ∀ file ∈ artifactFiles sha256 directory, IsDigest file.sha256 := by
  intro file hfile
  rw [artifactFiles, List.mem_insertionSort] at hfile
  exact isDigest_collectArtifactFiles "" directory file hfile

theorem exists_cons_of_hexText (bytes : Vector UInt8 32) :
    (hexText bytes.toList).toList.length = 64 ∧ ∃ c rest, (hexText bytes.toList).toList = c :: rest ∧
      isHexChar c = true := by
  have hlength : (hexText bytes.toList).toList.length = 64 := by
    rw [hexText, String.toList_ofList, length_flatMap_hexByte, Vector.length_toList]
  refine ⟨hlength, ?_⟩
  cases hchars : (hexText bytes.toList).toList with
  | nil =>
    rw [hchars] at hlength
    cases hlength
  | cons c rest =>
    have hall := all_isHexChar_flatMap_hexByte bytes.toList
    rw [hexText, String.toList_ofList] at hchars
    rw [hchars, List.all_cons, Bool.and_eq_true] at hall
    exact ⟨c, rest, rfl, hall.1⟩

/-- Different digests part. -/
theorem parted_of_isDigest (hone : IsDigest one) (htwo : IsDigest two) (hne : one ≠ two) :
    Parted one.toList two.toList := by
  have hmixed (bytes : Vector UInt8 32) :
      Parted "unreadable".toList (hexText bytes.toList).toList := by
    obtain ⟨-, c, rest, hchars, hhex⟩ := exists_cons_of_hexText bytes
    rw [hchars]
    have hne : 'u' ≠ c := by
      rintro rfl
      exact absurd hhex (by decide)
    exact parted_of_ne_head hne _ _
  rcases hone with rfl | ⟨bytes, rfl⟩
  · rcases htwo with rfl | ⟨bytes, rfl⟩
    · exact absurd rfl hne
    · exact hmixed bytes
  · rcases htwo with rfl | ⟨bytes', rfl⟩
    · exact (hmixed bytes).symm
    · refine parted_of_length_eq ?_ fun heq => hne (String.toList_inj.1 heq)
      rw [(exists_cons_of_hexText bytes).1, (exists_cons_of_hexText bytes').1]

theorem IsDigest.length_pos (h : IsDigest one) : 0 < one.toList.length := by
  rcases h with rfl | ⟨bytes, rfl⟩
  · decide
  · rw [(exists_cons_of_hexText bytes).1]
    decide

theorem exists_leading (files : List FileDigest) : ∃ rest,
    (files.flatMap fun file => file.path.toList ++ file.sha256.toList) ++ ['\x00'] =
      leading files ++ rest := by
  cases files with
  | nil => exact ⟨[], rfl⟩
  | cons file files => exact ⟨_, by simp [leading, List.append_assoc]; rfl⟩

/-- **What a pinned digest tells.** File lists that cannot be mistaken for each other are told by what
is digested of them. -/
theorem contentPreimage_inj (hfiles : ∀ file ∈ files, IsDigest file.sha256)
    (hothers : ∀ file ∈ others, IsDigest file.sha256) (hapart : FilesApart files others)
    (h : contentPreimage files = contentPreimage others) : files = others := by
  have hchars : (files.flatMap fun file => file.path.toList ++ file.sha256.toList) ++ ['\x00'] =
      (others.flatMap fun file => file.path.toList ++ file.sha256.toList) ++ ['\x00'] := by
    have htext := String.toList_inj.2 (String.toByteArray_inj.1 h)
    simp only [String.toList_join, List.flatMap_map, String.toList_append] at htext
    rw [htext]
  clear h
  induction files generalizing others with
  | nil =>
    cases others with
    | nil => rfl
    | cons other others =>
      have hpos := (hothers other List.mem_cons_self).length_pos
      have hlength := congrArg List.length hchars
      simp only [List.flatMap_nil, List.flatMap_cons, List.length_append, List.length_nil,
        List.length_singleton] at hlength
      omega
  | cons file files ih =>
    cases others with
    | nil =>
      have hpos := (hfiles file List.mem_cons_self).length_pos
      have hlength := congrArg List.length hchars
      simp only [List.flatMap_nil, List.flatMap_cons, List.length_append, List.length_nil,
        List.length_singleton] at hlength
      omega
    | cons other others =>
      rw [List.forall_mem_cons] at hfiles hothers
      simp only [List.flatMap_cons, List.append_assoc] at hchars
      obtain ⟨hpath | hparted, hnext⟩ := hapart
      · rw [hpath, List.append_right_inj] at hchars
        by_cases hdigest : file.sha256 = other.sha256
        · rw [hdigest, List.append_right_inj] at hchars
          have hsame : file = other := by
            cases file
            cases other
            simp_all
          rw [hsame, ih hfiles.2 hothers.2 (hnext hsame) hchars]
        · exact absurd hchars ((parted_of_isDigest hfiles.1 hothers.1 hdigest).append_ne _ _)
      · obtain ⟨rest, hrest⟩ := exists_leading files
        obtain ⟨rest', hrest'⟩ := exists_leading others
        rw [hrest, hrest'] at hchars
        simp only [← List.append_assoc] at hchars hparted
        exact absurd hchars (hparted.append_ne _ _)

end Pinned

/-! ### What is accepted -/

section Accept

variable {verifies : Verifier} {signature : PackageSignature} {manifest : PackageSection}
  {signed files : List FileDigest} {file : FileDigest}

theorem eq_of_path_eq {one two : FileDigest} (hpaths : (files.map FileDigest.path).Nodup)
    (hone : one ∈ files) (htwo : two ∈ files) (h : one.path = two.path) : one = two :=
  List.inj_on_of_nodup_map hpaths hone htwo h

theorem coverError_eq_none_iff (hpaths : (signed.map FileDigest.path).Nodup) :
    coverError signed file = none ↔ file ∈ signed := by
  rw [coverError]
  cases hfind : signed.find? fun other => other.path = file.path with
  | none =>
    rw [List.find?_eq_none] at hfind
    simp only [reduceCtorEq, false_iff]
    exact fun hmem => hfind file hmem (by simp)
  | some other =>
    have hmem := List.mem_of_find?_eq_some hfind
    have hpath : other.path = file.path := by simpa using List.find?_some hfind
    dsimp only
    split_ifs with hdigest
    · have hsame : other = file := by
        cases other
        cases file
        simp_all
      simp [← hsame, hmem]
    · simp only [false_iff]
      intro hfile
      exact hdigest (congrArg FileDigest.sha256 (eq_of_path_eq hpaths hmem hfile hpath))

theorem absenceError_eq_none_iff :
    absenceError files file = none ↔ ∃ actual ∈ files, actual.path = file.path := by
  rw [absenceError]
  split_ifs with hany
  · simpa using hany
  · simpa using hany

/-- **What a signature is accepted for**: a signature its key made belongs to an artifact when it is
about this package, this version and this publisher, and covers just the files of the artifact. -/
theorem check_eq_ok_iff (hself : signature.verifySelf verifies = .ok ())
    (hsigned : (signature.signed.files.map FileDigest.path).Nodup) :
    signature.check verifies manifest files = .ok () ↔
      signature.signed.package = manifest.id ∧ signature.signed.version = manifest.version ∧
        signature.signed.publisher = manifest.publisher ∧
          ∀ file, file ∈ signature.signed.files ↔ file ∈ files := by
  have hcover : (files.findSome? (coverError signature.signed.files)) = none ↔
      ∀ file ∈ files, file ∈ signature.signed.files := by
    simp only [List.findSome?_eq_none_iff, coverError_eq_none_iff hsigned]
  have habsence : (signature.signed.files.findSome? (absenceError files)) = none ↔
      ∀ file ∈ signature.signed.files, ∃ actual ∈ files, actual.path = file.path := by
    simp only [List.findSome?_eq_none_iff, absenceError_eq_none_iff]
  have hsets : (∀ file, file ∈ signature.signed.files ↔ file ∈ files) ↔
      (∀ file ∈ files, file ∈ signature.signed.files) ∧
        ∀ file ∈ signature.signed.files, ∃ actual ∈ files, actual.path = file.path := by
    constructor
    · intro h
      exact ⟨fun file hfile => (h file).2 hfile, fun file hfile => ⟨file, (h file).1 hfile, rfl⟩⟩
    · rintro ⟨hcovered, hpresent⟩ file
      refine ⟨fun hfile => ?_, hcovered file⟩
      obtain ⟨actual, hactual, hpath⟩ := hpresent file hfile
      rwa [← eq_of_path_eq hsigned (hcovered actual hactual) hfile hpath]
  rw [PackageSignature.check, hself, hsets, ← hcover, ← habsence]
  dsimp only [bind, Except.bind]
  split_ifs with hpackage hversion hpublisher
  · simp [hpackage]
  · simp [hversion]
  · simp [hpublisher]
  · rw [not_not] at hpackage hversion hpublisher
    simp only [hpackage, hversion, hpublisher, true_and]
    cases files.findSome? (coverError signature.signed.files) with
    | some error => simp
    | none =>
      cases signature.signed.files.findSome? (absenceError files) with
      | some error => simp
      | none => simp

end Accept

/-! ### The three promises -/

/-- **What is signed and what is pinned.** Accepted descriptions are told by their bytes, whatever
fields line breaks are kept out of, just when they are kept out of the publisher and of the package
or the version; directories whose file lists cannot be mistaken for each other are told by what is
digested of them; and a signature its key made is accepted for its package and its files alone. -/
theorem signed_and_pinned (escapeDebug : String → String) (sha256 : ByteHash)
    (verifies : Verifier) :
    (∀ package version publisher : Bool,
      (∀ signed other : SignedPackage, signed.Accepted escapeDebug → other.Accepted escapeDebug →
          BreaksOnlyIn package version publisher signed →
          BreaksOnlyIn package version publisher other →
            signed.canonicalBytes = other.canonicalBytes → signed = other) ↔
        publisher = false ∧ (package = false ∨ version = false)) ∧
    (∀ directory directory' : List (String × Node),
      FilesApart (artifactFiles sha256 directory) (artifactFiles sha256 directory') →
        contentPreimage (artifactFiles sha256 directory) =
            contentPreimage (artifactFiles sha256 directory') →
          artifactFiles sha256 directory = artifactFiles sha256 directory') ∧
    ∀ (signature : PackageSignature) (manifest : PackageSection) (files : List FileDigest),
      signature.signed.Accepted escapeDebug → signature.verifySelf verifies = .ok () →
        (signature.check verifies manifest files = .ok () ↔
          signature.signed.package = manifest.id ∧ signature.signed.version = manifest.version ∧
            signature.signed.publisher = manifest.publisher ∧
              ∀ file, file ∈ signature.signed.files ↔ file ∈ files) := by
  refine ⟨canonicalBytes_inj_iff escapeDebug, fun directory directory' hapart hsame => ?_,
    fun signature manifest files haccepted hself => check_eq_ok_iff hself haccepted.nodup⟩
  exact contentPreimage_inj isDigest_artifactFiles isDigest_artifactFiles hapart hsame

/-- Two empty files, and one empty file whose name spells the first of them and its digest. -/
def spelt (sha256 : ByteHash) : List (String × Node) × List (String × Node) :=
  ([("a", .file (some .empty)), ("b", .file (some .empty))],
    [("a" ++ hexText (sha256 .empty).toList ++ "b", .file (some .empty))])

theorem artifactFiles_spelt (sha256 : ByteHash) :
    artifactFiles sha256 (spelt sha256).1 =
      [.ofBytes sha256 "a" .empty, .ofBytes sha256 "b" .empty] ∧
      artifactFiles sha256 (spelt sha256).2 =
        [.ofBytes sha256 ("a" ++ hexText (sha256 .empty).toList ++ "b") .empty] := by
  have hnames : ∀ text : String, isSignature ("a" ++ text ++ "b") = false := by
    intro text
    simp [isSignature, ← String.toList_inj]
  have hletters : "a" < "b" := by decide
  constructor
  · exact List.Pairwise.insertionSort_eq (List.pairwise_pair.2 (.inl hletters))
  · simp [artifactFiles, spelt, collectArtifactFiles, hnames, collectNode]

/-- A line break in a publisher spells a signed file, and a file name spells a pinned one. -/
theorem not_signed_and_pinned :
    (¬∀ (escapeDebug : String → String) (signed other : SignedPackage),
      signed.Accepted escapeDebug → other.Accepted escapeDebug →
        signed.canonicalBytes = other.canonicalBytes → signed = other) ∧
      ∀ sha256 : ByteHash, ¬∀ directory directory' : List (String × Node),
        contentPreimage (artifactFiles sha256 directory) =
            contentPreimage (artifactFiles sha256 directory') →
          artifactFiles sha256 directory = artifactFiles sha256 directory' := by
  refine ⟨fun h => ?_, fun sha256 h => ?_⟩
  · have hsame := h id ⟨"p", "1", "u", [⟨"f", zeros⟩]⟩ _
      (accepted_of_singleton _ _ _) (accepted_of_nil _ _ _) (canonicalBytes_publisher ..)
    cases congrArg SignedPackage.files hsame
  · obtain ⟨hone, htwo⟩ := artifactFiles_spelt sha256
    have hsame := h (spelt sha256).1 (spelt sha256).2 (by
      rw [hone, htwo, contentPreimage, contentPreimage]
      simp [String.join, FileDigest.ofBytes, String.append_assoc])
    rw [hone, htwo] at hsame
    cases congrArg List.length hsame

end OnoSendai.Kuang
