import Mathlib.Data.List.DropRight
import Mathlib.Data.List.Sort
import Mathlib.Data.String.Basic
import OnoSendai.Change.Vocabulary

/-!
# Persistence domains and the mount table

Which storage object holds a path. A path is looked up in the kernel's mount table, the deepest
mount that contains it decides what holds it, and a mount that no local provider may protect is a
refusal with its reason. A directory is followed to the filesystems mounted beneath it.

Paths are texts.
-/

namespace OnoSendai.Protection

/-! ### Texts -/

/-- Whether a text begins with another. -/
def startsWith (text beginning : String) : Bool :=
  beginning.toList.isPrefixOf text.toList

/-- What follows a beginning, where the text has it. -/
def stripBeginning (beginning text : String) : Option String :=
  if startsWith text beginning then some (String.ofList (text.toList.drop beginning.length))
  else none

/-- A text without the slashes at its end. -/
def trimEndSlashes (text : String) : String :=
  String.ofList (text.toList.rdropWhile (· = '/'))

/-- Whether a mount at `target` contains a path. -/
def contains (target path : String) : Bool :=
  let target := trimEndSlashes target
  if target = "" then startsWith path "/" else path = target || startsWith path (target ++ "/")

/-- The components of a path, with the current directory dropped and the parent directory taken. -/
def components (parts : List String) : List (List Char) → List String
  | [] => parts
  | component :: rest =>
    if component = [] ∨ component = ['.'] then components parts rest
    else if component = ['.', '.'] then components parts.dropLast rest
    else components (parts ++ [String.ofList component]) rest

/-- The path from the root a text stands for, where it begins there. -/
def absolute (path : String) : Option String :=
  if startsWith path "/" then
    some ("/" ++ "/".intercalate (components [] (path.toList.splitOn '/')))
  else
    none

/-! ### Vocabularies -/

/-- What kind of filesystem a mount is. -/
inductive FilesystemKind
  | zfs
  | btrfs
  | ext4
  | xfs
  | lvm
  | overlay
  | network
  | pseudo
  | volatile
  | other
  | unknown
deriving DecidableEq

namespace FilesystemKind

/-- Whether a filesystem of this kind holds persistent state. -/
def isPersistent : FilesystemKind → Bool
  | zfs | btrfs | ext4 | xfs | lvm | other | overlay | network => true
  | pseudo | volatile | unknown => false

/-- The names of runtime interfaces. -/
def pseudoNames : List String :=
  ["proc", "procfs", "sysfs", "devtmpfs", "devpts", "cgroup", "cgroup2", "tracefs", "debugfs",
    "securityfs", "pstore", "bpf", "configfs", "fusectl", "hugetlbfs", "mqueue", "efivarfs",
    "binfmt_misc", "autofs", "rpc_pipefs", "nsfs", "selinuxfs"]

/-- The names of network filesystems. -/
def networkNames : List String :=
  ["nfs", "nfs4", "cifs", "smb3", "smbfs", "afs", "ceph", "glusterfs", "lustre", "ocfs2", "9p",
    "sshfs", "davfs", "beegfs", "orangefs", "gfs2", "pvfs2"]

/-- The kind the kernel's name for a filesystem stands for. -/
def ofMountType (name : String) : FilesystemKind :=
  let bare := (stripBeginning "fuse." name).getD name
  if bare = "zfs" then zfs
  else if bare = "btrfs" then btrfs
  else if bare ∈ ["ext2", "ext3", "ext4"] then ext4
  else if bare = "xfs" then xfs
  else if bare ∈ ["overlay", "overlayfs", "aufs", "unionfs"] then overlay
  else if bare ∈ ["tmpfs", "ramfs"] then volatile
  else if bare ∈ pseudoNames then pseudo
  else if bare ∈ networkNames then network
  else if bare = "" then unknown
  else other

end FilesystemKind

/-- Why no local provider may protect a path. -/
inductive NonPersistentReason
  | pseudo
  | volatile
  | remote
  | upperLayerElsewhere
  | containerEphemeral
  | noProvider
  | unresolved
deriving DecidableEq

/-! ### Domains -/

/-- A mount as a path was resolved through it. -/
structure ResolvedMount where
  mountId : String
  mountPoint : String
  filesystem : String
  source : String
  root : String
  options : List String
  inNamespace : Option String
deriving DecidableEq

namespace ResolvedMount

/-- The kind of the mounted filesystem. -/
def kind (mount : ResolvedMount) : FilesystemKind :=
  .ofMountType mount.filesystem

/-- The value of an option the mount was made with. -/
def option (mount : ResolvedMount) (key : String) : Option String :=
  mount.options.findSome? (stripBeginning (key ++ "="))

/-- Whether the mount is read-only. -/
def isReadOnly (mount : ResolvedMount) : Bool :=
  mount.options.any (· = "ro")

end ResolvedMount

/-- What holds the state of a path, or why nothing a local provider may protect does. -/
structure PersistenceDomain where
  path : String
  mount : ResolvedMount
  object : Option String
  objectKind : String
  boundary : Option String
  refusal : Option NonPersistentReason
  detail : String
deriving DecidableEq

namespace PersistenceDomain

/-- A path that resolves to an object. -/
def resolved (path : String) (mount : ResolvedMount) (objectKind object detail : String) :
    PersistenceDomain where
  path := path
  mount := mount
  object := some object
  objectKind := objectKind
  boundary := none
  refusal := none
  detail := detail

/-- A path that resolves to nothing a local provider may protect. -/
def refused (path : String) (mount : ResolvedMount) (reason : NonPersistentReason)
    (detail : String) : PersistenceDomain where
  path := path
  mount := mount
  object := none
  objectKind := "none"
  boundary := none
  refusal := some reason
  detail := detail

/-- The domain with a snapshot boundary. -/
def withBoundary (domain : PersistenceDomain) (boundary : String) : PersistenceDomain :=
  { domain with boundary := some boundary }

/-- Whether a local provider may protect the domain. -/
def isProtectable (domain : PersistenceDomain) : Bool :=
  domain.refusal.isNone && domain.object.isSome && domain.mount.kind.isPersistent

end PersistenceDomain

/-- Which mechanisms may protect a domain. -/
inductive DomainReach
  | refused
  | copyOnly
  | any
deriving DecidableEq

/-- The reach of a domain: an overlay whose writable layer is out of sight may only be copied. -/
def DomainReach.of (domain : PersistenceDomain) : DomainReach :=
  if !domain.isProtectable then .refused
  else if domain.mount.kind = .overlay then .copyOnly
  else .any

/-! ### The mount table -/

/-- One line of the kernel's mount table. -/
structure MountInfo where
  source : String
  target : String
  filesystem : String
  options : List String
  deviceNumber : String

/-- The subvolume a mount names. -/
def MountInfo.subvolume (info : MountInfo) : Option String :=
  info.options.findSome? (stripBeginning "subvol=")

/-- The mount a line of the table describes. -/
def MountInfo.resolvedMount (info : MountInfo) (inNamespace : Option String) : ResolvedMount where
  mountId := info.deviceNumber
  mountPoint := info.target
  filesystem := info.filesystem
  source := info.source
  root := info.subvolume.getD "/"
  options := info.options
  inNamespace := inNamespace

/-- The mount of a path no mount contains. -/
def noMount (inNamespace : Option String) : ResolvedMount where
  mountId := "0:0"
  mountPoint := ""
  filesystem := ""
  source := ""
  root := "/"
  options := []
  inNamespace := inNamespace

/-- The deepest mount that contains a path, the last one among equals. -/
def deepest (path : String) (mounts : List MountInfo) : Option Nat :=
  let step (best : Option (Nat × Nat)) (entry : MountInfo × Nat) : Option (Nat × Nat) :=
    let depth := (trimEndSlashes entry.1.target).utf8ByteSize
    if contains entry.1.target path ∧ ∀ previous ∈ best, previous.2 ≤ depth then
      some (entry.2, depth)
    else
      best
  (mounts.zipIdx.foldl step none).map (·.1)

/-- The mount with the shortest path that carries the same filesystem, where a mount is a bind of
it. -/
def underlying (index : Nat) (mounts : List MountInfo) : Option MountInfo :=
  mounts[index]?.bind fun info =>
    let step (best : Option MountInfo) (entry : MountInfo × Nat) : Option MountInfo :=
      if entry.2 ≠ index ∧ entry.1.deviceNumber = info.deviceNumber ∧
          entry.1.source = info.source ∧ entry.1.subvolume = info.subvolume ∧
          ∀ current ∈ best, entry.1.target.utf8ByteSize < current.target.utf8ByteSize then
        some entry.1
      else
        best
    (mounts.zipIdx.foldl step none).filter fun primary =>
      primary.target.utf8ByteSize < info.target.utf8ByteSize

/-- How many writable layers of overlays are followed. -/
def maxOverlayDepth : Nat :=
  4

/-- The domain of a path on an overlay whose writable layer is out of sight. -/
def copyOnly (subject : String) (info : MountInfo) (mount : ResolvedMount) (upper : String) :
    PersistenceDomain :=
  .resolved subject mount "overlay-writable-layer" upper
    ("the writable upper layer " ++ upper ++ " of the overlay at " ++ info.target ++
      " is not visible in this mount namespace, so it cannot be followed to a filesystem. " ++
      "Appendix B.4 forbids claiming that snapshotting the merged mount protects this data; only " ++
      "a copy of the visible bytes, written back through the same merged view, may protect it. " ++
      "A container's writable layer may be ephemeral (Appendix B.5), and a copy kept on the same " ++
      "overlay shares its failure domain (§11.5)")

/-- The domain of a path on an overlay: that of its writable layer, where it can be followed.
`follow` resolves the layer, unless too many have been followed already. -/
def resolveOverlay (mounts : List MountInfo) (follow : Option (String → PersistenceDomain))
    (subject : String) (index : Nat) (info : MountInfo) (mount : ResolvedMount) :
    PersistenceDomain :=
  match mount.option "upperdir", follow with
  | none, _ =>
    .refused subject mount .upperLayerElsewhere
      ("the overlay at " ++ info.target ++ " declares no writable upper layer, so a mutation has " ++
        "nowhere recoverable to land (Appendix B.4)")
  | some _, none =>
    .refused subject mount .upperLayerElsewhere
      ("the writable layer of the overlay at " ++ info.target ++
        " could not be followed to a filesystem within " ++ toString maxOverlayDepth ++
        " steps (Appendix B.4)")
  | some upper, some follow =>
    let holder := (absolute upper).bind fun lookup => deepest lookup mounts
    if holder = none ∨ holder = some index then
      copyOnly subject info mount upper
    else
      let resolved := follow upper
      match DomainReach.of resolved with
      | .refused =>
        .refused subject mount .upperLayerElsewhere
          ("the writable upper layer of the overlay at " ++ info.target ++ " is " ++ upper ++
            ", which is not a persistence domain a local provider can protect: " ++
            resolved.detail ++ ". Appendix B.4 forbids claiming that snapshotting the merged " ++
            "mount protects this data")
      | .copyOnly => copyOnly subject info mount upper
      | .any =>
        let object := resolved.object.getD upper
        { PersistenceDomain.resolved subject resolved.mount resolved.objectKind object
            ("the mutation lands in the writable upper layer " ++ upper ++ " of the overlay at " ++
              info.target ++ ", which resolves to " ++ object ++
              "; the merged mount itself holds nothing (Appendix B.4)") with
          boundary := resolved.boundary }

/-- The domain of a path that a mount holds. -/
def resolveMount (mounts : List MountInfo) (inNamespace : Option String)
    (follow : Option (String → PersistenceDomain)) (subject : String) (index : Nat)
    (info : MountInfo) : PersistenceDomain :=
  let mount := info.resolvedMount inNamespace
  let readOnly :=
    if mount.isReadOnly then ", and the mount is read-only, so a restore could not write to it"
    else ""
  let traced := (underlying index mounts).elim "" fun primary =>
    ", traced through a bind mount to the same filesystem at " ++ primary.target
  match mount.kind with
  | .pseudo =>
    .refused subject mount .pseudo
      (info.target ++ " is " ++ info.filesystem ++ ", a runtime interface; §32.4 forbids " ++
        "presenting it as snapshot-protected because its mountpoint is beneath `/`")
  | .volatile =>
    .refused subject mount .volatile
      (info.target ++ " is a " ++ info.filesystem ++ " whose contents do not survive a reboot; a " ++
        "snapshot of the filesystem above it holds none of this state (Appendix B.7)")
  | .network =>
    .refused subject mount .remote
      (info.target ++ " is served by " ++ info.source ++ " over " ++ info.filesystem ++
        "; Appendix B.6 forbids a local snapshot provider from claiming it, and recovery is " ++
        "unknown locally")
  | .unknown =>
    .refused subject mount .unresolved
      ("the kernel names no filesystem type for " ++ info.target ++ ", and Appendix B.8 and B.9 " ++
        "forbid inferring a recovery mechanism from anything else")
  | .overlay => resolveOverlay mounts follow subject index info mount
  | .zfs =>
    (PersistenceDomain.resolved subject mount "zfs-dataset" info.source
      ("mount " ++ info.target ++ " carries the ZFS dataset " ++ info.source ++ ", taken from " ++
        "mount metadata rather than from the shape of the path (Appendix B.8)" ++ traced ++
        readOnly)).withBoundary info.source
  | .btrfs =>
    let subvolume := (mount.option "subvol").getD "/"
    let identity := (mount.option "subvolid").elim subvolume fun id =>
      subvolume ++ " (subvolid=" ++ id ++ ")"
    (PersistenceDomain.resolved subject mount "btrfs-subvolume" subvolume
      ("mount " ++ info.target ++ " carries the Btrfs subvolume " ++ identity ++ " of " ++
        info.source ++ "; a directory merely named like a subvolume is not one (Appendix B.9)" ++
        traced ++ readOnly)).withBoundary subvolume
  | .lvm | .ext4 | .xfs | .other =>
    .resolved subject mount "filesystem" info.source
      ("mount " ++ info.target ++ " is " ++ info.filesystem ++ " on " ++ info.source ++ traced ++
        ". The filesystem has no snapshot mechanism of its own, so protection depends on a " ++
        "provider that copies state" ++ readOnly)

/-- The domain of a path found at `lookup`, with the number of overlays that may still be
followed. -/
def resolveAt (mounts : List MountInfo) (inNamespace : Option String) (subject : String) :
    Nat → String → PersistenceDomain
  | depth, lookup =>
    let found := (deepest lookup mounts).bind fun index => mounts[index]?.map (index, ·)
    match found with
    | none =>
      .refused subject (noMount inNamespace) .unresolved
        ("no mount in this namespace contains " ++ lookup)
    | some (index, info) =>
      match depth with
      | 0 => resolveMount mounts inNamespace none subject index info
      | depth + 1 =>
        resolveMount mounts inNamespace (some (resolveAt mounts inNamespace subject depth)) subject
          index info

/-- The mount table of a namespace. -/
structure MountTable where
  mounts : List MountInfo
  inNamespace : Option String

/-- A filesystem mounted beneath a directory. -/
structure MountBoundary where
  mountPoint : String
  domain : PersistenceDomain
deriving DecidableEq

namespace MountTable

/-- The domain of a path. -/
def resolve (table : MountTable) (path : String) : PersistenceDomain :=
  match absolute path with
  | some target => resolveAt table.mounts table.inNamespace path maxOverlayDepth target
  | none =>
    .refused path (noMount table.inNamespace) .unresolved
      ("a relative path has no namespace-visible mount, and Appendix B.1 resolves from a mount " ++
        "rather than from a name")

/-- The mount points beneath a directory that no later mount hides, in the order of the table. -/
def pointsBeneath (root : String) : List MountInfo → List String → List String
  | [], points => points
  | info :: later, points =>
    match absolute info.target with
    | none => pointsBeneath root later points
    | some point =>
      if point = root ∨ ¬ contains root point ∨ point ∈ points then
        pointsBeneath root later points
      else
        let hidden := later.any fun info =>
          (absolute info.target).any fun cover =>
            cover ≠ point && contains cover point && contains root cover
        pointsBeneath root later (if hidden then points else points ++ [point])

/-- The filesystems mounted beneath a directory, by mount point. -/
def boundariesBeneath (table : MountTable) (path : String) : List MountBoundary :=
  match absolute path with
  | none => []
  | some root =>
    ((pointsBeneath root table.mounts []).insertionSort (· ≤ ·)).map fun point =>
      ⟨point, table.resolve point⟩

end MountTable

end OnoSendai.Protection
