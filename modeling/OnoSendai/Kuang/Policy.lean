import OnoSendai.Kuang.Capability
import OnoSendai.Kuang.Decode
import OnoSendai.Link.Trust
import OnoSendai.Protection.Mount

/-!
# The broker's policy

The grants and denials a package's host calls are measured against
(`ono_kuang_supervisor::policy`): denials stand ahead of every grant, an expired grant answers
nothing, and one grant has to cover every value a call uses. Matching a glob and printing a value
are given: the texts the policy holds are patterns of another library.
-/

namespace OnoSendai.Kuang

open List

/-! ### Texts -/

/-- What the matching of scopes is given: the text of a JSON value that is not a string, and what
a glob matches, for a text that is one. A set of globs matches what one of them matches. -/
structure Matchers where
  display : Json → String
  glob : String → Option (String → Bool)

/-- A text without the white space at its ends. -/
def trim (text : String) : String :=
  String.ofList (Separated.trimmed Link.isWhitespace text.toList)

/-- What stands before and after the first occurrence of a character. -/
def splitOnce (separator : Char) (text : String) : Option (String × String) :=
  match text.toList.dropWhile (· ≠ separator) with
  | [] => none
  | _ :: after =>
    some (String.ofList (text.toList.takeWhile (· ≠ separator)), String.ofList after)

/-- A leading `~` or `~/` replaced by the home directory; everything else as written. -/
def expandHome (path : String) : Option String → String
  | none => path
  | some home =>
    if path = "~" then Protection.trimEndSlashes home
    else
      match Protection.stripBeginning "~/" path with
      | some rest => Protection.trimEndSlashes home ++ "/" ++ rest
      | none => path

/-! ### Grants -/

/-- A standing grant: a capability, bounded by a scope or not, with the instant it ends at and the
permission whose decision minted it. -/
structure Grant where
  capability : Capability
  scope : Option Members
  expiresAt : Option Int
  permission : Option String

/-- The policy the broker evaluates on every call. -/
structure Policy where
  systemDenies : List Capability
  userDenies : List Capability
  grants : List Grant
  home : Option String

/-- A concrete value a call is about to use, under the scope key it is checked against. -/
inductive ScopeUse
  | path (key value : String)
  | name (key value : String)
  | port (key : String) (value : UInt16)
deriving DecidableEq

/-- Where a denial came from. -/
inductive DenialSource
  | system
  | user
  | default

/-- The broker's answer for one use. -/
inductive Evaluation
  | allowed (grant : Grant)
  | denied (source : DenialSource)
  | leaseExpired (grant : Grant) (expiredAt : Int)
  | scopeViolation (grant : Grant) (attempted : String)

namespace ScopeUse

/-- The scope key a use is checked against. -/
def key : ScopeUse → String
  | path key _ | name key _ | port key _ => key

/-- The concrete value, as text. -/
def display : ScopeUse → String
  | path _ value | name _ value => value
  | port _ value => toString value.toNat

end ScopeUse

/-! ### Coverage -/

/-- The text of an item of a scope's list. -/
def itemText (matchers : Matchers) : Json → String
  | .string text => text
  | other => matchers.display other

/-- The entries of a scope value; none where it is neither a list nor a text. -/
def allowedList (matchers : Matchers) : Json → Option (List String)
  | .array items => some (items.map (itemText matchers))
  | .string text => some [text]
  | _ => none

/-- Whether a port is inside an entry: a number, a range, or `*` for any port. -/
def portCovered (allowed : String) (port : UInt16) : Bool :=
  let allowed := trim allowed
  if allowed = "*" then true
  else
    match (splitOnce '-' allowed).bind fun (low, high) =>
      (parseUnsigned 16 (trim low)).bind fun low =>
        (parseUnsigned 16 (trim high)).map fun high => (low, high) with
    | some (low, high) => decide (low ≤ port.toNat) && decide (port.toNat ≤ high)
    | none => parseUnsigned 16 allowed = some port.toNat

/-- The glob of a pattern, with its leading `~` resolved; none for one that still begins with `~`
or is not a glob. -/
def resolvedGlob (matchers : Matchers) (home : Option String) (pattern : String) :
    Option (String → Bool) :=
  let resolved := expandHome pattern home
  if Protection.startsWith resolved "~" then none else matchers.glob resolved

/-- Whether a path is inside one of the patterns. -/
def pathCovered (matchers : Matchers) (home : Option String) (patterns : List String)
    (value : String) : Bool :=
  (patterns.filterMap (resolvedGlob matchers home)).any fun glob => glob value

/-- Whether a name is a pattern, or begins with what precedes its final `*`. -/
def nameMatches (pattern value : String) : Bool :=
  match pattern.toList.reverse with
  | '*' :: before => before.reverse.isPrefixOf value.toList
  | _ => pattern = value

/-- Whether a list of entries covers a value. -/
def entriesCover (matchers : Matchers) (home : Option String) (entries : List String) :
    ScopeUse → Bool
  | .path _ value => pathCovered matchers home entries value
  | .name _ value => entries.any fun pattern => nameMatches pattern value
  | .port _ value => entries.any fun allowed => portCovered allowed value

/-- Whether what a scope has under a key covers a value. -/
def entryCovers (matchers : Matchers) (home : Option String) (allowed : Json) (used : ScopeUse) :
    Bool :=
  match allowedList matchers allowed with
  | none => false
  | some entries => entriesCover matchers home entries used

/-- Whether a scope covers a value; a key the scope does not carry is not bounded. -/
def valueCovered (matchers : Matchers) (home : Option String) (scope : Members) (used : ScopeUse) :
    Bool :=
  match scope.lookup used.key with
  | none => true
  | some allowed => entryCovers matchers home allowed used

/-- Whether the scope of a grant covers every value of a call; the first that it does not is
named. -/
def scopeCovers (matchers : Matchers) (home : Option String) (scope : Option Members)
    (used : List ScopeUse) : Except String Unit :=
  match scope with
  | none => .ok ()
  | some scope =>
    match used.find? fun value => !valueCovered matchers home scope value with
    | some value => .error value.display
    | none => .ok ()

/-! ### Evaluation -/

namespace Policy

/-- The same policy with one more grant. -/
def grantFor (policy : Policy) (grant : Grant) : Policy :=
  { policy with grants := policy.grants ++ [grant] }

/-- The answer of the grants for a capability, in order, with the nearest violation and the first
expired lease met so far. -/
def judge (matchers : Matchers) (home : Option String) (used : List ScopeUse) (now : Int) :
    List Grant → Option Evaluation → Option Evaluation → Evaluation
  | [], violation, expired => (violation.or expired).getD (.denied .default)
  | grant :: rest, violation, expired =>
    match grant.expiresAt.filter (· ≤ now) with
    | some expiry =>
      judge matchers home used now rest violation (expired.or (some (.leaseExpired grant expiry)))
    | none =>
      match scopeCovers matchers home grant.scope used with
      | .ok () => .allowed grant
      | .error attempted =>
        judge matchers home used now rest (violation.or (some (.scopeViolation grant attempted)))
          expired

/-- The answer to one use at an instant, in the order of precedence. -/
def evaluateAt (policy : Policy) (matchers : Matchers) (capability : Capability)
    (used : List ScopeUse) (now : Int) : Evaluation :=
  if capability ∈ policy.systemDenies then .denied .system
  else if capability ∈ policy.userDenies then .denied .user
  else
    judge matchers policy.home used now
      (policy.grants.filter fun grant => grant.capability = capability) none none

/-- The policy denies a capability, whatever it grants. -/
def Denies (policy : Policy) (capability : Capability) : Prop :=
  capability ∈ policy.systemDenies ∨ capability ∈ policy.userDenies

/-- The policy allows a use at an instant. -/
def Allows (policy : Policy) (matchers : Matchers) (capability : Capability)
    (used : List ScopeUse) (now : Int) : Prop :=
  ∃ grant, policy.evaluateAt matchers capability used now = .allowed grant

end Policy

/-- A scope covers a value. -/
def Covers (matchers : Matchers) (home : Option String) (scope : Option Members)
    (value : ScopeUse) : Prop :=
  ∀ members ∈ scope, valueCovered matchers home members value = true

/-- A grant has not ended at an instant. -/
def Grant.Stands (grant : Grant) (now : Int) : Prop :=
  ∀ expiry ∈ grant.expiresAt, now < expiry

section Allowed

variable {matchers : Matchers} {home : Option String} {scope : Option Members}
  {used : List ScopeUse} {now : Int} {policy : Policy} {capability : Capability}

variable {value : ScopeUse}

@[simp]
theorem covers_none : Covers matchers home none value := by
  simp [Covers]

theorem covers_some {members : Members} :
    Covers matchers home (some members) value ↔
      valueCovered matchers home members value = true := by
  simp [Covers]

theorem covers_some_iff {members : Members} :
    Covers matchers home (some members) value ↔
      ∀ allowed ∈ members.lookup value.key, entryCovers matchers home allowed value = true := by
  rw [covers_some, valueCovered]
  cases members.lookup value.key <;> simp

theorem entriesCover_mono {entries wider : List String} (h : entries ⊆ wider)
    (hcover : entriesCover matchers home entries value = true) :
    entriesCover matchers home wider value = true := by
  cases value with
  | path key value =>
    obtain ⟨glob, hglob, hmatch⟩ := any_eq_true.mp hcover
    exact any_eq_true.mpr ⟨glob, filterMap_subset _ h hglob, hmatch⟩
  | name key value | port key value =>
    obtain ⟨entry, hentry, hmatch⟩ := any_eq_true.mp hcover
    exact any_eq_true.mpr ⟨entry, h hentry, hmatch⟩

/-- The check of a scope succeeds where every value is covered. -/
theorem scopeCovers_eq_ok_iff :
    scopeCovers matchers home scope used = .ok () ↔
      ∀ value ∈ used, Covers matchers home scope value := by
  cases scope with
  | none => simp [scopeCovers]
  | some members =>
    simp only [scopeCovers, covers_some]
    cases hfind : used.find? fun value => !valueCovered matchers home members value with
    | none =>
      simpa using hfind
    | some value =>
      have hvalue : valueCovered matchers home members value = false := by
        simpa using find?_some hfind
      simp only [reduceCtorEq, false_iff]
      intro hall
      rw [hall value (mem_of_find?_eq_some hfind)] at hvalue
      cases hvalue

/-- An answer carried along is no permission. -/
private def Evaluation.IsRefusal (evaluation : Evaluation) : Prop :=
  ∀ grant, evaluation ≠ .allowed grant

/-- Grants answer with the first that stands and covers every value. -/
theorem Policy.judge_eq_allowed_iff {grants : List Grant} {violation expired : Option Evaluation}
    (hviolation : ∀ evaluation ∈ violation, evaluation.IsRefusal)
    (hexpired : ∀ evaluation ∈ expired, evaluation.IsRefusal) :
    (∃ grant, Policy.judge matchers home used now grants violation expired = .allowed grant) ↔
      ∃ grant ∈ grants, grant.Stands now ∧
        ∀ value ∈ used, Covers matchers home grant.scope value := by
  induction grants generalizing violation expired with
  | nil =>
    simp only [Policy.judge, not_mem_nil, false_and, exists_false, iff_false, not_exists]
    intro grant
    cases violation with
    | some evaluation => simpa using hviolation evaluation rfl grant
    | none =>
      cases expired with
      | some evaluation => simpa using hexpired evaluation rfl grant
      | none => simp
  | cons grant rest ih =>
    rw [Policy.judge]
    simp only [mem_cons, exists_eq_or_imp]
    cases hexpiry : grant.expiresAt.filter (· ≤ now) with
    | some expiry =>
      have hended : ¬ grant.Stands now := by
        intro hstands
        obtain ⟨hmem, hle⟩ := Option.filter_eq_some_iff.mp hexpiry
        have := hstands expiry hmem
        simp only [decide_eq_true_eq] at hle
        omega
      simp only [hended, false_and, false_or]
      refine ih hviolation fun evaluation hevaluation => ?_
      cases expired with
      | some first => exact hexpired evaluation (by simpa using hevaluation)
      | none =>
        obtain rfl : Evaluation.leaseExpired grant expiry = evaluation := by simpa using hevaluation
        intro found
        simp
    | none =>
      have hstands : grant.Stands now := by
        intro expiry hmem
        have := Option.filter_eq_none_iff.mp hexpiry expiry hmem
        simp only [decide_eq_true_eq] at this
        omega
      cases hcovers : scopeCovers matchers home grant.scope used with
      | ok done =>
        have := scopeCovers_eq_ok_iff.mp hcovers
        simp only [hstands, true_and]
        exact ⟨fun _ => .inl this, fun _ => ⟨grant, rfl⟩⟩
      | error attempted =>
        have hnot : ¬ ∀ value ∈ used, Covers matchers home grant.scope value := by
          rw [← scopeCovers_eq_ok_iff, hcovers]
          simp
        simp only [hnot, and_false, false_or]
        refine ih (fun evaluation hevaluation => ?_) hexpired
        cases violation with
        | some first => exact hviolation evaluation (by simpa using hevaluation)
        | none =>
          obtain rfl : Evaluation.scopeViolation grant attempted = evaluation := by
            simpa using hevaluation
          intro found
          simp

/-- **What the policy allows.** A use is allowed if and only if its capability is not denied and
one grant for it stands and covers every value of the use. -/
theorem Policy.allows_iff :
    policy.Allows matchers capability used now ↔
      ¬ policy.Denies capability ∧ ∃ grant ∈ policy.grants, grant.capability = capability ∧
        grant.Stands now ∧ ∀ value ∈ used, Covers matchers policy.home grant.scope value := by
  unfold Policy.Allows Policy.evaluateAt Policy.Denies
  split_ifs with hsystem huser
  · simp [hsystem]
  · simp [huser]
  · simp only [hsystem, huser, or_self, not_false_eq_true, true_and]
    rw [Policy.judge_eq_allowed_iff (by simp) (by simp)]
    simp [and_assoc]

theorem Policy.Allows.grantFor (h : policy.Allows matchers capability used now) (grant : Grant) :
    (policy.grantFor grant).Allows matchers capability used now := by
  obtain ⟨hdenies, held, hmem, hrest⟩ := Policy.allows_iff.mp h
  exact Policy.allows_iff.mpr ⟨hdenies, held, mem_append_left _ hmem, hrest⟩

end Allowed

end OnoSendai.Kuang
