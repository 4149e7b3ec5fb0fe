import Mathlib.Data.String.Basic
import OnoSendai.Change.Vocabulary
import OnoSendai.Lib.Lexicographic
import OnoSendai.Lib.Separated

/-!
# Scopes and their paths

A scope is the boundary an object belongs to: a host on one of its boots, or something nested in
another scope. The ledger stores a scope as a path, in which every level is followed by a separator,
so that everything inside a scope is one range of the paths.

Texts are compared by code points, which is the order of their bytes.
-/

namespace OnoSendai.Temporal

open Lexicographic Separated List Vocabulary

/-! ### Scopes -/

/-- The kinds of boundary an object can belong to. -/
inductive ScopeKind
  | host
  | remoteHost
  | container
  | namespace'
  | filesystem
  | user
  | plugin
deriving DecidableEq

instance : Vocabulary ScopeKind where
  all := [.host, .remoteHost, .container, .namespace', .filesystem, .user, .plugin]
  asStr
    | .host => "host"
    | .remoteHost => "remote_host"
    | .container => "container"
    | .namespace' => "namespace"
    | .filesystem => "filesystem"
    | .user => "user"
    | .plugin => "plugin"
  mem_all kind := by cases kind <;> decide
  spellings_nodup := by decide

/-- Which boot of which host: every constructor writes the host, a slash and the boot. -/
structure BootIdentity where
  text : String
  composed : '/' ∈ text.toList
deriving DecidableEq

/-- The boot identity of a host, told from its other boots. -/
def BootIdentity.new (host boot : String) : BootIdentity where
  text := host ++ "/" ++ boot
  composed := by simp

/-- A scope: a host, another host, or a boundary nested in a scope, whose boot it shares. -/
inductive SpatialScope
  | host (hostname : String) (boot : BootIdentity)
  | remoteHost (hostname : String) (boot : BootIdentity)
  | nest (parent : SpatialScope) (kind : ScopeKind) (id : String)
deriving DecidableEq

namespace SpatialScope

/-- The kind of boundary. -/
def kind : SpatialScope → ScopeKind
  | host _ _ => .host
  | remoteHost _ _ => .remoteHost
  | nest _ kind _ => kind

/-- The identifier of a scope within its parent. -/
def id : SpatialScope → String
  | host hostname _ => hostname
  | remoteHost hostname _ => hostname
  | nest _ _ id => id

/-- The boot identity of the host a scope ultimately belongs to. -/
def boot : SpatialScope → BootIdentity
  | host _ boot => boot
  | remoteHost _ boot => boot
  | nest parent _ _ => parent.boot

/-- A scope and its ancestors, outermost first. -/
def chain : SpatialScope → List SpatialScope
  | scope@(host _ _) => [scope]
  | scope@(remoteHost _ _) => [scope]
  | scope@(nest parent _ _) => parent.chain ++ [scope]

/-- Whether another scope is this one or nested inside it. -/
def contains (scope other : SpatialScope) : Bool :=
  scope ∈ other.chain

end SpatialScope

/-! ### Paths -/

/-- The separator between the parts of one level. -/
def part : Char :=
  Char.ofNat 0x1e

/-- The separator between levels, and the terminator of the last one. -/
def level : Char :=
  Char.ofNat 0x1f

/-- One level of a path, without its terminator. -/
def levelText (scope : SpatialScope) : List Char :=
  (asStr scope.kind).toList ++ part :: (scope.id.toList ++ part :: scope.boot.text.toList)

/-- A scope as an ordered path that can be compared by prefix. -/
def scopePath (scope : SpatialScope) : String :=
  String.ofList (terminated level (scope.chain.map levelText))

/-- The upper bound of the range of paths under a scope: its last separator raised by one. -/
def scopeUpperBound (path : String) : String :=
  String.ofList (path.toList.dropLast ++ [Char.ofNat 0x20])

/-- Reads a boot identity: what stands before and after its last slash, put together again. -/
def readBoot (text : List Char) : BootIdentity :=
  if '/' ∈ text then
    .new (String.ofList ((text.reverse.dropWhile (· ≠ '/')).drop 1).reverse)
      (String.ofList (text.reverse.takeWhile (· ≠ '/')).reverse)
  else .new (String.ofList text) "?"

/-- Reads one level of a path: its kind, its identity, and its boot where it names one. -/
def readLevel (text : List Char) : Except String (ScopeKind × String × Option BootIdentity) :=
  match text.splitOn part with
  | kind :: rest =>
    match fromName (String.ofList kind) with
    | some kind =>
      match rest with
      | id :: rest =>
        .ok (kind, String.ofList id, (rest.head?.filter (· ≠ [])).map readBoot)
      | [] => .error ("`" ++ String.ofList text ++ "` names no scope id")
    | none => .error ("`" ++ String.ofList text ++ "` does not name a scope kind")
  | [] => .error ("`" ++ String.ofList text ++ "` does not name a scope kind")

/-- The scope a path is rooted in. -/
def readRoot (kind : ScopeKind) (id : String) (boot : BootIdentity) :
    Except String SpatialScope :=
  match kind with
  | .host => .ok (.host id boot)
  | .remoteHost => .ok (.remoteHost id boot)
  | other =>
    .error ("a scope path is rooted in `" ++ asStr other ++ "` rather than a host")

/-- Reads a path back as a scope. -/
def readScopePath (path : String) : Except String SpatialScope :=
  match (path.toList.splitOn level).filter (· ≠ []) with
  | [] => .error "a scope path is empty"
  | root :: levels => do
    let (kind, id, boot) ← readLevel root
    let some boot := boot | .error "a root scope carries no boot identity"
    let scope ← readRoot kind id boot
    levels.foldlM (fun scope text => do
      let (kind, id, _) ← readLevel text
      .ok (.nest scope kind id)) scope

/-- No identity of the scope or of an ancestor holds a separator. -/
def SpatialScope.Plain (scope : SpatialScope) : Prop :=
  ∀ ancestor ∈ scope.chain, ∀ separator ∈ [part, level],
    separator ∉ ancestor.id.toList ∧ separator ∉ ancestor.boot.text.toList

/-- Both quantifiers range over lists, so the separators are tried one by one. -/
instance (scope : SpatialScope) : Decidable scope.Plain :=
  @decidableBAll SpatialScope (fun ancestor => ∀ separator ∈ [part, level],
    separator ∉ ancestor.id.toList ∧ separator ∉ ancestor.boot.text.toList)
    (fun _ => decidableBAll _ _) scope.chain

/-! ### What a path determines -/

section Paths

variable {scope other : SpatialScope}

namespace SpatialScope

theorem self_mem_chain (scope : SpatialScope) : scope ∈ scope.chain := by
  cases scope <;> simp [chain]

theorem exists_chain_eq (scope : SpatialScope) : ∃ ancestors, scope.chain = ancestors ++ [scope] := by
  cases scope with
  | host hostname boot => exact ⟨[], rfl⟩
  | remoteHost hostname boot => exact ⟨[], rfl⟩
  | nest parent kind id => exact ⟨parent.chain, rfl⟩

theorem chain_length_pos (scope : SpatialScope) : 0 < scope.chain.length := by
  obtain ⟨ancestors, hchain⟩ := scope.exists_chain_eq
  simp [hchain]

theorem chain_prefix_of_mem (h : scope ∈ other.chain) : scope.chain <+: other.chain := by
  induction other with
  | host hostname boot =>
    obtain rfl : scope = host hostname boot := by simpa [chain] using h
    exact prefix_rfl
  | remoteHost hostname boot =>
    obtain rfl : scope = remoteHost hostname boot := by simpa [chain] using h
    exact prefix_rfl
  | nest parent kind id ih =>
    rcases mem_append.1 h with hparent | hself
    · exact (ih hparent).trans (prefix_append _ _)
    · obtain rfl := mem_singleton.1 hself
      exact prefix_rfl

/-- The levels a path writes down. -/
def levels (scope : SpatialScope) : List (ScopeKind × String × BootIdentity) :=
  scope.chain.map fun ancestor => (ancestor.kind, ancestor.id, ancestor.boot)

/-- A scope is determined by its levels. -/
theorem levels_injective : Function.Injective levels := by
  intro scope other h
  induction scope generalizing other with
  | host hostname boot =>
    cases other with
    | host hostname' boot' => simpa [levels, chain, kind, id, SpatialScope.boot] using h
    | remoteHost hostname' boot' => simp [levels, chain, kind] at h
    | nest parent' kind' id' =>
      have hlength := congrArg length h
      have hpos := parent'.chain_length_pos
      simp only [levels, chain, length_map, length_append, length_singleton]
        at hlength
      omega
  | remoteHost hostname boot =>
    cases other with
    | host hostname' boot' => simp [levels, chain, kind] at h
    | remoteHost hostname' boot' => simpa [levels, chain, kind, id, SpatialScope.boot] using h
    | nest parent' kind' id' =>
      have hlength := congrArg length h
      have hpos := parent'.chain_length_pos
      simp only [levels, chain, length_map, length_append, length_singleton]
        at hlength
      omega
  | nest parent kind id ih =>
    cases other with
    | host hostname' boot' =>
      have hlength := congrArg length h
      have hpos := parent.chain_length_pos
      simp only [levels, chain, length_map, length_append, length_singleton]
        at hlength
      omega
    | remoteHost hostname' boot' =>
      have hlength := congrArg length h
      have hpos := parent.chain_length_pos
      simp only [levels, chain, length_map, length_append, length_singleton]
        at hlength
      omega
    | nest parent' kind' id' =>
      simp only [levels, chain, map_append, map_cons, map_nil] at h
      obtain ⟨hparent, hself⟩ := append_inj' h rfl
      obtain rfl := ih hparent
      simp only [SpatialScope.kind, SpatialScope.id, cons.injEq, Prod.mk.injEq] at hself
      rw [hself.1.1, hself.1.2.1]

/-- What begins the levels of a scope is the levels of an ancestor. -/
theorem exists_mem_chain_of_prefix {levels : List (ScopeKind × String × BootIdentity)}
    (hne : levels ≠ []) (h : levels <+: other.levels) :
    ∃ ancestor ∈ other.chain, ancestor.levels = levels := by
  have hroot {scope : SpatialScope} (hchain : scope.chain = [scope])
      (h : levels <+: scope.levels) : ∃ ancestor ∈ scope.chain, ancestor.levels = levels := by
    have hlength : scope.levels.length ≤ levels.length := by
      rw [SpatialScope.levels, hchain]
      exact length_pos_iff.2 hne
    exact ⟨scope, self_mem_chain _, (h.eq_of_length_le hlength).symm⟩
  induction other with
  | host hostname boot => exact hroot rfl h
  | remoteHost hostname boot => exact hroot rfl h
  | nest parent kind id ih =>
    have hsplit : (nest parent kind id).levels =
        parent.levels ++ [(kind, id, parent.boot)] := by
      simp [SpatialScope.levels, chain, SpatialScope.kind, SpatialScope.id, SpatialScope.boot]
    rw [hsplit, prefix_concat_iff] at h
    rcases h with heq | hprefix
    · exact ⟨nest parent kind id, self_mem_chain _, by rw [heq, hsplit]⟩
    · obtain ⟨ancestor, hmem, hlevels⟩ := ih hprefix
      exact ⟨ancestor, mem_append_left _ hmem, hlevels⟩

/-- **Containment by levels.** A scope contains another when its levels begin the other's. -/
theorem contains_iff_levels_prefix :
    scope.contains other = true ↔ scope.levels <+: other.levels := by
  rw [contains, decide_eq_true_eq]
  constructor
  · intro hmem
    exact (chain_prefix_of_mem hmem).map _
  · intro hprefix
    have hne : scope.levels ≠ [] := by
      have hpos := scope.chain_length_pos
      simpa [levels] using length_pos_iff.1 hpos
    obtain ⟨ancestor, hmem, hlevels⟩ := exists_mem_chain_of_prefix hne hprefix
    exact levels_injective hlevels ▸ hmem

end SpatialScope

theorem part_notMem_asStr (kind : ScopeKind) : part ∉ (asStr kind).toList := by
  cases kind <;> decide

theorem level_notMem_asStr (kind : ScopeKind) : level ∉ (asStr kind).toList := by
  cases kind <;> decide

theorem SpatialScope.Plain.level_notMem (h : scope.Plain) :
    ∀ text ∈ scope.chain.map levelText, level ∉ text := by
  intro text htext
  obtain ⟨ancestor, hmem, rfl⟩ := mem_map.1 htext
  obtain ⟨hid, hboot⟩ := h ancestor hmem level (by simp)
  have hparts : level ≠ part := by decide
  simp [levelText, level_notMem_asStr, hid, hboot, hparts]

/-- A level of two plain scopes is written alike when it is the same level. -/
theorem levelText_inj (hid : part ∉ scope.id.toList) (hid' : part ∉ other.id.toList) :
    levelText scope = levelText other ↔
      (scope.kind, scope.id, scope.boot) = (other.kind, other.id, other.boot) := by
  constructor
  · intro heq
    obtain ⟨hkind, hrest⟩ :=
      (append_cons_inj (part_notMem_asStr _) (part_notMem_asStr _)).1 heq
    obtain ⟨hidEq, hboot⟩ := (append_cons_inj hid hid').1 hrest
    have hkind := asStr_inj.1 (String.toList_inj.1 hkind)
    have hboot : scope.boot = other.boot := by
      rw [BootIdentity.mk.injEq]
      exact String.toList_inj.1 hboot
    rw [hkind, String.toList_inj.1 hidEq, hboot]
  · intro heq
    obtain ⟨hkind, hid, hboot⟩ : scope.kind = other.kind ∧ scope.id = other.id ∧
        scope.boot = other.boot := by simpa using heq
    rw [levelText, levelText, hkind, hid, hboot]

theorem scopePath_prefix_iff (h : scope.Plain) (h' : other.Plain) :
    (scopePath scope).toList <+: (scopePath other).toList ↔ scope.contains other = true := by
  rw [SpatialScope.contains_iff_levels_prefix, scopePath, scopePath, String.toList_ofList,
    String.toList_ofList, terminated_prefix_iff h.level_notMem h'.level_notMem]
  refine map_prefix_map_iff fun ancestor hmem ancestor' hmem' => ?_
  exact levelText_inj (h ancestor hmem part (by simp)).1 (h' ancestor' hmem' part (by simp)).1

theorem exists_scopePath_eq (scope : SpatialScope) :
    ∃ front, (scopePath scope).toList = front ++ [level] := by
  obtain ⟨ancestors, hchain⟩ := scope.exists_chain_eq
  refine ⟨terminated level (ancestors.map levelText) ++ levelText scope, ?_⟩
  simp [scopePath, hchain, terminated]

/-- **Everything inside a scope is one range of the paths.** -/
theorem contains_iff_scopePath_range (h : scope.Plain) (h' : other.Plain) :
    scope.contains other = true ↔
      scopePath scope ≤ scopePath other ∧ scopePath other < scopeUpperBound (scopePath scope) := by
  obtain ⟨front, hfront⟩ := exists_scopePath_eq scope
  have hlt : level < Char.ofNat 0x20 := by decide
  have hnext : ∀ item, level ≤ item → item < Char.ofNat 0x20 → item = level := by
    intro item hle hbelow
    have hle : (0x1f : Nat) ≤ item.toNat := hle
    have hbelow : item.toNat < 0x20 := hbelow
    have hnat : item.toNat = 0x1f := by omega
    rw [← Char.ofNat_toNat item, hnat]
    rfl
  rw [← scopePath_prefix_iff h h', hfront, ← range_iff_prefix hlt hnext, ← hfront, ← not_lt,
    String.lt_iff_toList_lt, String.lt_iff_toList_lt, scopeUpperBound, String.toList_ofList, hfront,
    dropLast_concat]

/-! ### Reading a path back -/

theorem readBoot_text (boot : BootIdentity) : readBoot boot.text.toList = boot := by
  obtain ⟨text, hcomposed⟩ := boot
  obtain ⟨rest, hrest⟩ := exists_dropWhile_eq (mem_reverse.2 hcomposed)
  have hsplit := takeWhile_append_dropWhile (p := (· ≠ '/')) (l := text.toList.reverse)
  rw [hrest] at hsplit
  -- what stands before the last slash, the slash, and what stands after it
  have htext := congrArg reverse hsplit
  rw [reverse_reverse, reverse_append, reverse_cons] at htext
  rw [readBoot, if_pos hcomposed, BootIdentity.new, BootIdentity.mk.injEq, hrest,
    ← String.toList_inj]
  simp only [String.toList_append, String.toList_ofList]
  exact htext

theorem readLevel_levelText (hid : part ∉ scope.id.toList) (hboot : part ∉ scope.boot.text.toList) :
    readLevel (levelText scope) = .ok (scope.kind, scope.id, some scope.boot) := by
  have hsplit : (levelText scope).splitOn part =
      [(asStr scope.kind).toList, scope.id.toList, scope.boot.text.toList] := by
    rw [levelText, splitOn_append_cons_self_of_not_mem (part_notMem_asStr _),
      splitOn_append_cons_self_of_not_mem hid, splitOn_eq_singleton hboot]
  have hne : scope.boot.text.toList ≠ [] := ne_nil_of_mem scope.boot.composed
  rw [readLevel, hsplit]
  simp [hne, readBoot_text]

/-- What reads the levels of a scope one by one. -/
def readNested (scope : SpatialScope) (text : List Char) : Except String SpatialScope := do
  let (kind, id, _) ← readLevel text
  .ok (.nest scope kind id)

/-- A path begins with its root, and the other levels are read into the scope. -/
theorem exists_levels_eq (h : scope.Plain) :
    ∃ root levels, scope.chain.map levelText = levelText root :: levels ∧ root ∈ scope.chain ∧
      readRoot root.kind root.id root.boot = .ok root ∧
      levels.foldlM readNested root = .ok scope := by
  induction scope with
  | host hostname boot => exact ⟨.host hostname boot, [], rfl, mem_cons_self, rfl, rfl⟩
  | remoteHost hostname boot =>
    exact ⟨.remoteHost hostname boot, [], rfl, mem_cons_self, rfl, rfl⟩
  | nest parent kind id ih =>
    obtain ⟨root, levels, hlevels, hmem, hroot, hfold⟩ :=
      ih fun ancestor hancestor => h ancestor (mem_append_left _ hancestor)
    have hself := h (.nest parent kind id) (SpatialScope.self_mem_chain _) part (by simp)
    refine ⟨root, levels ++ [levelText (.nest parent kind id)], ?_, mem_append_left _ hmem,
      hroot, ?_⟩
    · rw [SpatialScope.chain, map_append, hlevels]
      rfl
    · rw [foldlM_append, hfold]
      simp only [foldlM_cons, foldlM_nil, readNested,
        readLevel_levelText hself.1 hself.2]
      rfl

/-- **Round trip of a path.** A plain scope is read back from its path. -/
theorem readScopePath_scopePath (h : scope.Plain) : readScopePath (scopePath scope) = .ok scope := by
  obtain ⟨root, levels, hlevels, hmem, hroot, hfold⟩ := exists_levels_eq h
  have hne : ∀ text ∈ scope.chain.map levelText, decide (text ≠ []) = true := by
    intro text htext
    obtain ⟨ancestor, -, rfl⟩ := mem_map.1 htext
    simp [levelText]
  have hfilter : ((scopePath scope).toList.splitOn level).filter (· ≠ []) =
      levelText root :: levels := by
    rw [scopePath, String.toList_ofList, splitOn_terminated h.level_notMem, filter_append,
      filter_eq_self.2 hne, hlevels]
    simp
  obtain ⟨hid, hboot⟩ := h root hmem part (by simp)
  rw [readScopePath, hfilter]
  dsimp only
  rw [readLevel_levelText hid hboot]
  exact (congrArg (· >>= levels.foldlM readNested) hroot).trans hfold

end Paths

end OnoSendai.Temporal
