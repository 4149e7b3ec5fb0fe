import OnoSendai.Kuang.Negotiate

/-!
# Asking before a call

A package may ask whether a call would proceed before it makes the call. It names the values it is
about to use in a scope, as JSON, and the broker builds the uses from the scope keys of the family.
The calls build theirs by hand: a path is resolved first, `~` and links included, and a port is a
number. The answer is right where both come to uses that no scope tells apart.
-/

namespace OnoSendai.Kuang

open ScopeKey Policy
open List hiding all

/-! ### The check -/

/-- The values under a key: the items of a list, or the one value there is. -/
def scopeValues : Json → List Json
  | .array items => items
  | other => [other]

/-- A JSON number as a port. -/
def portNumber (value : Json) : Option UInt16 :=
  value.asU64.bind fun number =>
    if number.toNat < 2 ^ 16 then some (.ofNat number.toNat) else none

/-- A value as a use, in the shape of its key. -/
def scopeUse (matchers : Matchers) (key : ScopeKey) (value : Json) : ScopeUse :=
  match key.kind with
  | .pathGlob => .path key.name (itemText matchers value)
  | .portList =>
    match portNumber value with
    | some port => .port key.name port
    | none => .name key.name (itemText matchers value)
  | _ => .name key.name (itemText matchers value)

/-- The uses a check names under one key. -/
def usesUnder (matchers : Matchers) (scope : Members) (key : ScopeKey) : List ScopeUse :=
  match scope.lookup key.name with
  | none => []
  | some value => (scopeValues value).map (scopeUse matchers key)

/-- The concrete values a check names, in the shapes of the scope keys of the family. -/
def scopeUsesOf (matchers : Matchers) (capability : Capability) (scope : Option Members) :
    List ScopeUse :=
  match scope with
  | none => []
  | some scope => capability.scopeKeys.flatMap (usesUnder matchers scope)

/-- The family with an id. -/
def Capability.fromId (id : String) : Option Capability :=
  Capability.all.find? fun capability => capability.id = id

/-- The answer of a check. -/
inductive CheckAnswer
  | granted
  | ask
  | denied
  | unknown

/-- What the policy says about the values a check names. -/
def hostCheck (matchers : Matchers) (permissions : PermissionSet) (policy : Policy)
    (capability : String) (scope : Option Members) (now : Int) : CheckAnswer :=
  match Capability.fromId capability with
  | none => .unknown
  | some capability =>
    match policy.evaluateAt matchers capability (scopeUsesOf matchers capability scope) now with
    | .allowed _ => .granted
    | .denied .default => if (permissions.jitPermission capability).isSome then .ask else .denied
    | _ => .denied

/-! ### What a call meets -/

/-- The answer of the consent source to one use. -/
inductive Consent
  | notAsked
  | allowed (grant : Grant)
  | refused (error : ErrorValue)

/-- Whether nothing a person decided covers a use. -/
def undecided (permissions : PermissionSet) : Evaluation → Bool
  | .denied .default => true
  | .scopeViolation grant _ =>
    (grant.permission.bind permissions.descriptor).any fun descriptor => descriptor.phase = .jit
  | _ => false

/-- What a call meets: whether a person is asked, and the grant it proceeds under. -/
def brokerCheck (matchers : Matchers) (permissions : PermissionSet) (policy : Policy)
    (capability : Capability) (used : List ScopeUse) (now : Int) (consent : Consent) :
    Bool × Except Evaluation Grant :=
  match policy.evaluateAt matchers capability used now with
  | .allowed grant => (false, .ok grant)
  | refused =>
    if undecided permissions refused && (permissions.jitPermission capability).isSome then
      match consent with
      | .allowed grant => (true, .ok grant)
      | _ => (true, .error refused)
    else
      (false, .error refused)

/-- A call proceeds without a question. -/
def Proceeds (matchers : Matchers) (permissions : PermissionSet) (policy : Policy)
    (capability : Capability) (used : List ScopeUse) (now : Int) (consent : Consent) : Prop :=
  ∃ grant,
    brokerCheck matchers permissions policy capability used now consent = (false, .ok grant)

/-! ### The calls -/

/-- The last name of a path, unless the path ends in `..` or has none. -/
def fileName (path : String) : Option String :=
  match ((path.toList.splitOn '/').filter fun part => part ≠ [] && part ≠ ['.']).getLast? with
  | some part => if part = ['.', '.'] then none else some (String.ofList part)
  | none => none

/-- A path as a call uses it: with the home resolved, and canonical where the file system has it. -/
def resolvedPath (canonicalize : String → Option String) (home : Option String) (path : String) :
    String :=
  (canonicalize (expandHome path home)).getD (expandHome path home)

/-- A call whose values the broker checks: reading a file by its path, and connecting and running a
program with the parameters as they came. -/
inductive Call
  | filesystemRead (path : String)
  | networkConnect (params : Members)
  | processExec (params : Members)

namespace Call

/-- The host a connection is asked for. -/
def hostName (params : Members) : String :=
  (Json.text params "host").getD ""

/-- The port a connection is asked for. -/
def port (params : Members) : UInt16 :=
  (portNumber (Json.member params "port")).getD 0

/-- The program that is asked for. -/
def program (params : Members) : String :=
  (Json.text params "program").getD ""

/-- The family of the call. -/
def capability : Call → Capability
  | filesystemRead _ => .filesystemRead
  | networkConnect _ => .networkConnect
  | processExec _ => .processExec

/-- What the call is checked for. -/
def uses (canonicalize : String → Option String) (home : Option String) : Call → List ScopeUse
  | filesystemRead path => [.path "paths" (resolvedPath canonicalize home path)]
  | networkConnect params => [.name "hosts" (hostName params), .port "ports" (port params)]
  | processExec params =>
    let resolved := resolvedPath canonicalize home (program params)
    [.path "programs" resolved, .name "executables" ((fileName resolved).getD "")]

end Call

/-- A scope has one value under a key, alone or as a list. -/
def HasOne (scope : Members) (key : String) (value : Json) : Prop :=
  ∃ found, scope.lookup key = some found ∧ scopeValues found = [value]

/-- A scope names the values of a call as the package has them: the path or program as it is
written with the name of the program, or the host and the port as a number or a text. -/
inductive Names (matchers : Matchers) (scope : Members) : Call → Prop
  | filesystemRead {path value} : HasOne scope "paths" value → itemText matchers value = path →
      Names matchers scope (.filesystemRead path)
  | networkConnect {params host port} :
      HasOne scope "hosts" host → itemText matchers host = Call.hostName params →
      HasOne scope "ports" port →
      (portNumber port = some (Call.port params) ∨
        portNumber port = none ∧ itemText matchers port = toString (Call.port params).toNat) →
      Names matchers scope (.networkConnect params)
  | processExec {params program name} :
      HasOne scope "programs" program → itemText matchers program = Call.program params →
      HasOne scope "executables" name →
      itemText matchers name = (fileName (Call.program params)).getD "" →
      scope.lookup "argv_policy" = none →
      Names matchers scope (.processExec params)

/-! ### Uses that no policy tells apart -/

section Apart

variable {matchers : Matchers} {permissions : PermissionSet} {policy : Policy}
  {capability : Capability} {used : List ScopeUse} {scope : Option Members} {now : Int}
  {home : Option String}

theorem fromId_id (capability : Capability) :
    Capability.fromId capability.id = some capability := by
  cases hfind : Capability.fromId capability.id with
  | none =>
    have hmem : capability ∈ Capability.all := by cases capability <;> decide
    have hnone := List.find?_eq_none.1 hfind capability hmem
    simp at hnone
  | some found =>
    have hid : found.id = capability.id := by simpa using find?_some hfind
    rw [Capability.id_injective hid]

theorem hostCheck_eq_granted_iff :
    hostCheck matchers permissions policy capability.id scope now = .granted ↔
      policy.Allows matchers capability (scopeUsesOf matchers capability scope) now := by
  rw [hostCheck, fromId_id, Allows]
  dsimp only
  cases heval : policy.evaluateAt matchers capability (scopeUsesOf matchers capability scope) now with
  | allowed grant => simp
  | denied source =>
    cases source
    case default => dsimp only; split_ifs <;> simp
    all_goals simp
  | leaseExpired grant expiredAt => simp
  | scopeViolation grant attempted => simp

theorem proceeds_iff (consent : Consent) :
    Proceeds matchers permissions policy capability used now consent ↔
      policy.Allows matchers capability used now := by
  rw [Proceeds, Allows, brokerCheck]
  cases policy.evaluateAt matchers capability used now with
  | allowed grant => simp
  | denied source | leaseExpired grant expiredAt | scopeViolation grant attempted =>
    dsimp only
    split_ifs
    · cases consent <;> simp
    · simp

theorem allows_of_one_grant {members : Members} :
    (mk [] [] [⟨capability, some members, none, none⟩] home).Allows matchers capability used
        now ↔ ∀ value ∈ used, Covers matchers home (some members) value := by
  rw [allows_iff]
  simp [Denies, Grant.Stands]

/-- **What no policy tells apart.** Every policy of a host answers alike about two lists of uses
exactly when every scope covers all of the one where it covers all of the other. -/
theorem forall_policy_allows_iff {used' : List ScopeUse} :
    (∀ policy : Policy, policy.home = home → ∀ now,
        policy.Allows matchers capability used now ↔ policy.Allows matchers capability used' now) ↔
      ∀ members : Members, (∀ value ∈ used, Covers matchers home (some members) value) ↔
        ∀ value ∈ used', Covers matchers home (some members) value := by
  constructor
  · intro h members
    have hpolicy := h (mk [] [] [⟨capability, some members, none, none⟩] home) rfl 0
    rwa [allows_of_one_grant, allows_of_one_grant] at hpolicy
  · rintro h policy rfl now
    have hcovers (scope : Option Members) :
        (∀ value ∈ used, Covers matchers policy.home scope value) ↔
          ∀ value ∈ used', Covers matchers policy.home scope value := by
      cases scope with
      | none => simp
      | some members => exact h members
    rw [allows_iff, allows_iff]
    simp only [hcovers]

theorem covers_one_key {key pattern : String} {value : ScopeUse} :
    Covers matchers home (some [(key, .string pattern)]) value ↔
      value.key ≠ key ∨ entriesCover matchers home [pattern] value = true := by
  rw [covers_some_iff]
  by_cases hkey : value.key = key
  · simp [hkey, entryCovers, allowedList]
  · have hne : (value.key == key) = false := by simpa using hkey
    simp [lookup_cons, hne, hkey]

/-- A value is covered by a list of entries where one of them covers it. -/
theorem entriesCover_iff {entries : List String} {value : ScopeUse} :
    entriesCover matchers home entries value = true ↔
      ∃ entry ∈ entries, entriesCover matchers home [entry] value = true := by
  constructor
  · intro h
    cases value with
    | path key value =>
      obtain ⟨glob, hglob, hmatch⟩ := any_eq_true.mp h
      obtain ⟨entry, hentry, hresolved⟩ := mem_filterMap.1 hglob
      refine ⟨entry, hentry, any_eq_true.mpr ⟨glob, ?_, hmatch⟩⟩
      exact mem_filterMap.2 ⟨entry, mem_singleton_self _, hresolved⟩
    | name key value | port key value =>
      obtain ⟨entry, hentry, hmatch⟩ := any_eq_true.mp h
      exact ⟨entry, hentry, any_eq_true.mpr ⟨entry, mem_singleton_self _, hmatch⟩⟩
  · rintro ⟨entry, hentry, h⟩
    exact entriesCover_mono (cons_subset.2 ⟨hentry, nil_subset _⟩) h

theorem covers_congr {one two : ScopeUse} (hkey : one.key = two.key)
    (h : ∀ pattern, entriesCover matchers home [pattern] one = true ↔
      entriesCover matchers home [pattern] two = true) (members : Members) :
    Covers matchers home (some members) one ↔ Covers matchers home (some members) two := by
  rw [covers_some_iff, covers_some_iff, hkey]
  refine forall₂_congr fun allowed _ => ?_
  rw [entryCovers, entryCovers]
  cases allowedList matchers allowed with
  | none => rfl
  | some entries =>
    dsimp only
    rw [entriesCover_iff, @entriesCover_iff _ _ _ two]
    simp only [h]

/-- Two paths match the same patterns. -/
def SamePatterns (matchers : Matchers) (home : Option String) (one two : String) : Prop :=
  ∀ pattern, ∀ glob ∈ resolvedGlob matchers home pattern, glob one = glob two

theorem samePatterns_iff {key one two : String} :
    SamePatterns matchers home one two ↔
      ∀ pattern, entriesCover matchers home [pattern] (.path key one) = true ↔
        entriesCover matchers home [pattern] (.path key two) = true := by
  refine forall_congr' fun pattern => ?_
  simp only [entriesCover, pathCovered, filterMap_cons, filterMap_nil]
  cases resolvedGlob matchers home pattern with
  | none => simp
  | some glob => simp

theorem nameMatches_star (name value : String) :
    nameMatches (name ++ "*") value = name.toList.isPrefixOf value.toList := by
  have hreverse : (name ++ "*").toList.reverse = '*' :: name.toList.reverse := by simp
  simp only [nameMatches, hreverse, reverse_reverse]

theorem eq_of_nameMatches {one two : String}
    (h : ∀ pattern, nameMatches pattern one = true ↔ nameMatches pattern two = true) :
    one = two := by
  have hone : one.toList <+: two.toList := by
    rw [← isPrefixOf_iff_prefix, ← nameMatches_star]
    exact (h _).1 (by rw [nameMatches_star]; exact isPrefixOf_iff_prefix.2 prefix_rfl)
  have htwo : two.toList <+: one.toList := by
    rw [← isPrefixOf_iff_prefix, ← nameMatches_star]
    exact (h _).2 (by rw [nameMatches_star]; exact isPrefixOf_iff_prefix.2 prefix_rfl)
  exact String.toList_injective (hone.eq_of_length (le_antisymm hone.length_le htwo.length_le))

/-- A range of every port covers a port, and not a name that is the text of one. -/
theorem not_covers_alike (port : UInt16) :
    ¬ (entriesCover matchers home ["0-65535"] (.name "ports" (toString port.toNat)) = true ↔
      entriesCover matchers home ["0-65535"] (.port "ports" port) = true) := by
  have hport : portCovered "0-65535" port = true := by
    have hle : port.toNat ≤ 65535 := Nat.le_of_lt_succ port.toNat_lt
    have hsides : splitOnce '-' (trim "0-65535") = some ("0", "65535") := by decide
    have hlow : parseUnsigned 16 (trim "0") = some 0 := by decide
    have hhigh : parseUnsigned 16 (trim "65535") = some 65535 := by decide
    have hstar : trim "0-65535" ≠ "*" := by decide
    simp only [portCovered, hsides, Option.bind_some, hlow, hhigh, Option.map_some, if_neg hstar]
    simp [hle]
  have hname : nameMatches "0-65535" (toString port.toNat) = false := by
    refine decide_eq_false fun heq => ?_
    have hdash : '-' ∈ Nat.toDigits 10 port.toNat := by
      have hmem : '-' ∈ (toString port.toNat).toList := by rw [← heq]; decide
      rwa [Nat.toString_eq_repr, Nat.repr, String.toList_ofList] at hmem
    exact absurd (Nat.isDigit_of_mem_toDigits (by omega) (by omega) hdash) (by decide)
  rw [entriesCover, entriesCover, any_cons, any_cons, hport, hname]
  simp

end Apart

/-! ### The check and the call -/

section Agreement

variable {matchers : Matchers} {canonicalize : String → Option String} {home : Option String}
  {scope : Members} {call : Call}

/-- The check answers what the call meets: for every policy of the host, at every instant, it is
granted exactly when the call proceeds without a question. -/
def CheckAgrees (matchers : Matchers) (canonicalize : String → Option String)
    (home : Option String) (scope : Members) (call : Call) : Prop :=
  ∀ (permissions : PermissionSet) (policy : Policy), policy.home = home → ∀ now consent,
    hostCheck matchers permissions policy call.capability.id (some scope) now = .granted ↔
      Proceeds matchers permissions policy call.capability (call.uses canonicalize home) now consent

/-- What is named is what is used: the path as it is written matches the patterns of the path that
is used, a port is named by a number, and a program has its name behind its links too. -/
def SameValues (matchers : Matchers) (canonicalize : String → Option String)
    (home : Option String) (scope : Members) : Call → Prop
  | .filesystemRead path => SamePatterns matchers home path (resolvedPath canonicalize home path)
  | .networkConnect _ => ∀ value, HasOne scope "ports" value → (portNumber value).isSome
  | .processExec params =>
    SamePatterns matchers home (Call.program params)
        (resolvedPath canonicalize home (Call.program params)) ∧
      (fileName (Call.program params)).getD "" =
        (fileName (resolvedPath canonicalize home (Call.program params))).getD ""

theorem HasOne.unique {key : String} {one two : Json} (hone : HasOne scope key one)
    (htwo : HasOne scope key two) : one = two := by
  obtain ⟨found, hfound, hvalues⟩ := hone
  obtain ⟨found', hfound', hvalues'⟩ := htwo
  obtain rfl := Option.some.inj (hfound.symm.trans hfound')
  exact singleton_injective (hvalues.symm.trans hvalues')

theorem HasOne.usesUnder {key : ScopeKey} {value : Json} (h : HasOne scope key.name value) :
    usesUnder matchers scope key = [scopeUse matchers key value] := by
  obtain ⟨found, hfound, hvalues⟩ := h
  rw [Kuang.usesUnder, hfound]
  dsimp only
  rw [hvalues]
  rfl

theorem checkAgrees_iff_forall :
    CheckAgrees matchers canonicalize home scope call ↔
      ∀ members : Members,
        (∀ value ∈ scopeUsesOf matchers call.capability (some scope),
          Covers matchers home (some members) value) ↔
        ∀ value ∈ call.uses canonicalize home, Covers matchers home (some members) value := by
  rw [← @forall_policy_allows_iff matchers call.capability]
  simp only [CheckAgrees, hostCheck_eq_granted_iff, proceeds_iff]
  exact ⟨fun h policy hhome now => h ⟨[], []⟩ policy hhome now .notAsked,
    fun h _ policy hhome now _ => h policy hhome now⟩

theorem scopeUsesOf_filesystemRead {value : Json} (h : HasOne scope "paths" value) :
    scopeUsesOf matchers .filesystemRead (some scope) =
      [.path "paths" (itemText matchers value)] := by
  have hpaths : HasOne scope (broker "paths" .pathGlob).name value := h
  simp only [scopeUsesOf, Capability.scopeKeys, flatMap_cons, flatMap_nil,
    hpaths.usesUnder]
  rfl

theorem scopeUsesOf_networkConnect {host port : Json} (hhost : HasOne scope "hosts" host)
    (hport : HasOne scope "ports" port) :
    scopeUsesOf matchers .networkConnect (some scope) =
      [.name "hosts" (itemText matchers host),
        match portNumber port with
        | some port => .port "ports" port
        | none => .name "ports" (itemText matchers port)] := by
  have hhosts : HasOne scope (broker "hosts" .hostList).name host := hhost
  have hports : HasOne scope (broker "ports" .portList).name port := hport
  simp only [scopeUsesOf, Capability.scopeKeys, flatMap_cons, flatMap_nil,
    hhosts.usesUnder, hports.usesUnder]
  rfl

theorem scopeUsesOf_processExec {program name : Json} (hprogram : HasOne scope "programs" program)
    (hname : HasOne scope "executables" name) (hargv : scope.lookup "argv_policy" = none) :
    scopeUsesOf matchers .processExec (some scope) =
      [.path "programs" (itemText matchers program),
        .name "executables" (itemText matchers name)] := by
  have hprograms : HasOne scope (broker "programs" .pathGlob).name program := hprogram
  have hnames : HasOne scope (broker "executables" .idList).name name := hname
  have hrest : usesUnder matchers scope (broker "argv_policy" .nameList) = [] := by
    rw [usesUnder, show (broker "argv_policy" .nameList).name = "argv_policy" from rfl,
      hargv]
  simp only [scopeUsesOf, Capability.scopeKeys, flatMap_cons, flatMap_nil,
    hprograms.usesUnder, hnames.usesUnder, hrest]
  rfl

theorem forall_covers_path_iff {key one two : String} :
    (∀ members : Members, Covers matchers home (some members) (.path key one) ↔
        Covers matchers home (some members) (.path key two)) ↔
      SamePatterns matchers home one two := by
  rw [@samePatterns_iff _ _ key]
  refine ⟨fun h pattern => ?_, fun h => covers_congr rfl h⟩
  simpa [covers_one_key, ScopeUse.key] using h [(key, .string pattern)]

/-- **What a check answers.** Where a scope names the values of a call, the check answers what the
call meets exactly when what is named is what is used. -/
theorem checkAgrees_iff (h : Names matchers scope call) :
    CheckAgrees matchers canonicalize home scope call ↔
      SameValues matchers canonicalize home scope call := by
  rw [checkAgrees_iff_forall]
  cases h with
  | @filesystemRead path value hpath htext =>
    rw [Call.capability, scopeUsesOf_filesystemRead hpath, htext, SameValues,
      ← @forall_covers_path_iff _ _ "paths"]
    simp [Call.uses]
  | @networkConnect params host port hhost hhostText hport hportText =>
    rw [Call.capability, scopeUsesOf_networkConnect hhost hport, hhostText]
    have hsame : SameValues matchers canonicalize home scope (.networkConnect params) ↔
        (portNumber port).isSome :=
      ⟨fun h => h port hport, fun h value hvalue => hvalue.unique hport ▸ h⟩
    rw [hsame]
    rcases hportText with hnumber | ⟨hnone, htext⟩
    · rw [hnumber]
      simp [Call.uses]
    · -- A scope of every port covers the number and not the text.
      rw [hnone, htext]
      simp only [Option.isSome_none, Bool.false_eq_true, iff_false]
      intro h
      refine @not_covers_alike matchers home (Call.port params) ?_
      simpa [Call.uses, covers_one_key, ScopeUse.key] using h [("ports", .string "0-65535")]
  | @processExec params program name hprogram hprogramText hname hnameText hargv =>
    rw [Call.capability, scopeUsesOf_processExec hprogram hname hargv, hprogramText, hnameText,
      SameValues, ← @forall_covers_path_iff _ _ "programs"]
    simp only [Call.uses, forall_mem_cons, not_mem_nil, false_imp_iff, implies_true,
      and_true]
    constructor
    · intro h
      refine ⟨?_, eq_of_nameMatches fun pattern => ?_⟩
      · rw [forall_covers_path_iff, @samePatterns_iff _ _ "programs"]
        intro pattern
        simpa [covers_one_key, ScopeUse.key] using h [("programs", .string pattern)]
      · simpa [covers_one_key, ScopeUse.key, entriesCover] using
          h [("executables", .string pattern)]
    · rintro ⟨hpaths, hnames⟩ members
      rw [hpaths members, hnames]

end Agreement

/-! ### A port as a text -/

/-- The parameters of a connection to a host on port 443. -/
def secureConnection : Members :=
  [("host", .string "db.example"), ("port", .number (.posInt 443))]

/-- The scope that names them. -/
def secureScope (port : Json) : Members :=
  [("hosts", .string "db.example"), ("ports", port)]

theorem names_secureConnection {port : Json} (hvalues : scopeValues port = [port])
    (hport : portNumber port = some 443 ∨ portNumber port = none ∧ itemText globless port = "443") :
    Names globless (secureScope port) (.networkConnect secureConnection) :=
  .networkConnect ⟨_, rfl, rfl⟩ rfl ⟨_, rfl, hvalues⟩ hport

theorem checkAgrees_number :
    CheckAgrees globless (fun _ => none) none (secureScope (.number (.posInt 443)))
      (.networkConnect secureConnection) := by
  refine (checkAgrees_iff (names_secureConnection rfl (.inl (by decide)))).2 fun value hvalue => ?_
  obtain ⟨found, hfound, hvalues⟩ := hvalue
  obtain rfl : found = .number (.posInt 443) := (Option.some.inj hfound).symm
  obtain rfl : value = .number (.posInt 443) := (singleton_injective hvalues).symm
  decide

/-- A port that is named by its text is denied under a grant for a range it is in. -/
theorem not_checkAgrees_text :
    ¬ ∀ (canonicalize : String → Option String) (home : Option String) (scope : Members)
      (call : Call), Names globless scope call → CheckAgrees globless canonicalize home scope call
    := by
  intro h
  have hagrees := checkAgrees_iff_forall.1 (h (fun _ => none) none (secureScope (.string "443"))
    (.networkConnect secureConnection) (names_secureConnection rfl (.inr ⟨rfl, rfl⟩)))
    [("ports", .string "400-500")]
  have hcall : ∀ value ∈ (Call.networkConnect secureConnection).uses (fun _ => none) none,
      Covers globless none (some [("ports", .string "400-500")]) value := by
    intro value hvalue
    rw [covers_some]
    rcases mem_cons.1 hvalue with rfl | hvalue
    · decide
    · obtain rfl := mem_singleton.1 hvalue
      decide
  have hcheck := hagrees.2 hcall (.name "ports" "443") (by decide)
  rw [covers_some] at hcheck
  exact absurd hcheck (by decide)

end OnoSendai.Kuang
