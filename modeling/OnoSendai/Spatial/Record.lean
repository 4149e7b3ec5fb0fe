import OnoSendai.Spatial.Hierarchy

/-!
# Reading provider records

What a provider record says to the spatial layer: which kind of place it is, the keys other
records refer to it by, the relations it asserts, the exits it was refused, and the directory that
encloses it (`ono_spatial_index::bridge`).

The text of a scalar is a parameter, as is the projection of a record into an object.
-/

namespace OnoSendai.Spatial

/-- How values are spelled, how a record is projected into an object of a kind, and how a place a
record only names is made from its key. -/
structure Reader where
  canonicalText : Value → Option String
  projectAs : RecordValue → SpatialType → Except ErrorValue SpatialObject
  derive : SpatialType → String → String → String → Provenance → SpatialObject
  geography : Geography

/-! ### Values as text -/

/-- The part of a text after the last of a separator. -/
def afterLast (separator : Char) (text : String) : String :=
  String.ofList (text.toList.reverse.takeWhile (· ≠ separator)).reverse

/-- The record a value is. -/
def asRecord : Value → Option RecordValue
  | .record schema fields extra provenance => some ⟨schema, fields, extra, provenance⟩
  | _ => none

/-- The id of a schema, as it is spelled. -/
def schemaText (schema : SchemaId) : String :=
  schema.name ++ "/" ++ toString schema.version

namespace Reader

variable (reader : Reader)

/-- The text of a known value that is not empty. -/
def text : Option Value → Option String
  | none => none
  | some .null => none
  | some (.error _ _) => none
  | some value => (reader.canonicalText value).filter (· ≠ "")

/-- The texts of the items of a list field. -/
def listOf (record : RecordValue) (field : String) : List String :=
  match record.get field with
  | some (.list items) => items.filterMap fun item => reader.text (some item)
  | _ => []

/-- The name of an endpoint: its path, or its address with the port it has. -/
def endpointName (record : RecordValue) (field : String) : Option String := do
  let endpoint ← (record.get field).bind asRecord
  match reader.text (endpoint.get "path") with
  | some path => some path
  | none =>
    let address ← reader.text (endpoint.get "address")
    match reader.text (endpoint.get "port") with
    | some port => some (address ++ ":" ++ port)
    | none => some address

/-! ### The place of a record -/

/-- Whether the kernel has given a socket up. -/
def isReleased (record : RecordValue) : Bool :=
  reader.text (record.get "state") ∈ [some "time-wait", some "close"]

/-- The states of a socket that has a peer. -/
def connectedStates : List String :=
  ["established", "syn-sent", "syn-recv", "fin-wait-1", "fin-wait-2", "time-wait", "close",
    "close-wait", "last-ack", "closing"]

/-- Whether a socket has a peer: its state says so, or a peer is given. -/
def isConnected (record : RecordValue) : Bool :=
  match reader.text (record.get "state") with
  | some "listen" => false
  | state =>
    state.any (· ∈ connectedStates) ||
      ((record.get "remote").bind asRecord).any fun peer =>
        ["address", "path"].any fun field => (peer.get field).any fun value => ¬ value.isNull

/-- The kind of place a record projects to, where it is one. -/
def spatialTypeOf (record : RecordValue) : Option SpatialType :=
  match schemaText record.schema.id with
  | "ono.process/1" => some .process
  | "ono.process-detail/1" => some .process
  | "ono.service/1" => some .service
  | "ono.job/1" => some .job
  | "ono.container/1" => some .container
  | "ono.socket/1" =>
    if reader.isReleased record then none
    else if reader.isConnected record then some .connection
    else some .listener
  | "ono.interface/1" => some .interface
  | "ono.interface-address/1" => some .address
  | "ono.route/1" => some .route
  | "ono.neighbor/1" => some .neighbor
  | "ono.namespace/1" => some .networkNamespace
  | "ono.filesystem/1" => some .filesystem
  | "ono.mount/1" => some .mount
  | "ono.block-device/1" => some .blockDevice
  | "ono.device/1" =>
    if reader.text (record.get "kind") = some "block" then some .blockDevice else some .device
  | "ono.file/1" =>
    if reader.text (record.get "kind") = some "dir" then some .directory else some .file
  | "ono.user/1" => some .user
  | "ono.group/1" => some .group
  | "ono.session/1" => some .session
  | "ono.host/1" => some .host
  | "ono.cgroup/1" => some .cgroup
  | other =>
    (reader.geography.contributedTypes.find? fun entry => entry.schema == other).map (·.objectType)

/-- The field another record names a place of a kind by. -/
def referenceField : SpatialType → Option String
  | .process => some "pid"
  | .service => some "name"
  | .host => some "name"
  | .interface => some "name"
  | .job => some "id"
  | .container => some "id"
  | .networkNamespace => some "id"
  | .session => some "id"
  | .socket => some "inode"
  | .listener => some "inode"
  | .connection => some "inode"
  | .address => some "address"
  | .neighbor => some "address"
  | .filesystem => some "source"
  | .mount => some "target"
  | .blockDevice => some "path"
  | .device => some "path"
  | .directory => some "path"
  | .file => some "path"
  | .cgroup => some "path"
  | .user => some "uid"
  | .group => some "gid"
  | .contributed name =>
    (reader.geography.contributedForType (.contributed name)).map fun entry =>
      entry.identity.headD ""
  | _ => none

/-- Whether an address stands for every address. -/
def isWildcard (address : String) : Bool :=
  address ∈ ["0.0.0.0", "::", "*", ""]

/-- The keys a listener is joined to its connections by: its endpoint, and its port where it
listens on every address. -/
def listenerKeys (endpoint : String) : List String :=
  let port := afterLast ':' endpoint
  ("listener@" ++ endpoint) ::
    if (":" ++ port).toList.isSuffixOf endpoint.toList ∧
        isWildcard (String.ofList (endpoint.toList.take
          (endpoint.toList.length - (port.toList.length + 1)))) then
      ["listener@*:" ++ port]
    else []

/-- The keys other records refer to a place by. -/
def referenceKeys (kind : SpatialType) (record : RecordValue) : List String :=
  let own := ((reader.referenceField kind).bind fun field => reader.text (record.get field)).toList
  let more :=
    match kind with
    | .interface => (reader.text (record.get "index")).toList
    | .listener => ((reader.endpointName record "local").map listenerKeys).getD []
    | .container =>
      match own with
      | id :: _ => if id.utf8ByteSize > 12 then [String.ofList (id.toList.take 12)] else []
      | [] => []
    | _ => []
  (own ++ more).filter (· ≠ "")

/-- The key a value refers to a place of a kind by. -/
def referenceKey (value : Value) (kind : SpatialType) : Option String :=
  match value with
  | .null => none
  | .record schema fields extra provenance =>
    (reader.referenceField kind).bind fun field =>
      reader.text ((⟨schema, fields, extra, provenance⟩ : RecordValue).get field)
  | other => reader.text (some other)

/-- The last segment of a path. -/
def baseName (path : String) : String :=
  afterLast '/' path

/-- The names a place answers to besides its display name. -/
def aliasesFrom (kind : SpatialType) (record : RecordValue) : List String :=
  let names :=
    match kind with
    | .process =>
      (match record.get "command" with
        | some (.list (program :: _)) =>
          match reader.text (some program) with
          | some program =>
            if program.toList.any Char.isWhitespace then [] else [baseName program]
          | none => []
        | _ => []) ++
        ((reader.text (record.get "executable")).map baseName).toList
    | .socket => socketNames
    | .listener => socketNames
    | .connection => socketNames
    | .file => pathNames
    | .directory => pathNames
    | _ => []
  names.filter (· ≠ "")
where
  /-- The endpoint of a socket, and its port where that is a number. -/
  socketNames : List String :=
    match reader.endpointName record "local" with
    | some endpoint =>
      let port := afterLast ':' endpoint
      (if port.toList.all Char.isDigit ∧ port ≠ "" then [port, ":" ++ port] else []) ++ [endpoint]
    | none => []
  /-- The path of a file and its last segment. -/
  pathNames : List String :=
    match reader.text (record.get "path") with
    | some path => [baseName path, path]
    | none => []

/-- The segments of a path without the empty ones and the dots at its end. -/
def withoutTail (segments : List (List Char)) : List (List Char) :=
  (segments.reverse.dropWhile fun segment => segment = [] ∨ segment = ['.']).reverse

/-- The path of the directory a path is in. -/
def parentPath (path : String) : Option String :=
  let segments := path.toList.splitOn '/'
  let body := withoutTail segments
  if body = [] then none
  else
    let above := withoutTail body.dropLast
    some <|
      if above ≠ [] then String.ofList (List.intercalate ['/'] above)
      else if segments.head? = some [] then "/"
      else if segments.head? = some ['.'] then "."
      else ""

/-- The path of the directory that encloses a file or directory. -/
def enclosingDirectory (kind : SpatialType) (record : RecordValue) : Option String :=
  if kind = .file ∨ kind = .directory then
    (reader.text (record.get "path")).bind fun path =>
      (parentPath path).filter fun parent => parent ≠ path ∧ parent ≠ ""
  else none

end Reader

/-! ### The relations a record asserts -/

/-- What a record says its place is related to: a place another record describes, by kind and key,
or one that is made from the key. -/
inductive FarEnd
  | known (objectType : SpatialType) (key : String)
  | composed (objectType : SpatialType) (schema field key : String)

/-- The kind of the far end. -/
def FarEnd.objectType : FarEnd → SpatialType
  | known objectType _ => objectType
  | composed objectType _ _ _ => objectType

/-- The key of the far end. -/
def FarEnd.key : FarEnd → String
  | known _ key => key
  | composed _ _ _ key => key

/-- One relation a record asserts of its place. -/
structure Fact where
  subject : SpatialId
  subjectIsSource : Bool
  relation : RelationSpec
  far : FarEnd
  confidence : Confidence
  provenance : Provenance
  attributes : MapValue

/-- One exit of a place that could not be read. -/
structure Withheld where
  subject : SpatialId
  label : String
  state : PermissionState
  detail : String

/-- What a record asserts: relations, and exits it was refused. -/
structure Assertions where
  facts : List Fact
  withheld : List Withheld

/-- The codes of refusals for want of permission. -/
def permissionCodes : List String :=
  ["io.permission_denied", "provider.authentication_failed", "provider.authorization_denied",
    "adapter.disabled", "adapter.capability_denied", "spatial.permission_denied",
    "spatial.scope_violation", "temporal.permission_denied", "change.privilege_required",
    "change.capability_missing", "load.capability_denied", "capability.denied",
    "capability.scope_violation", "capability.lease_expired", "permission.required",
    "permission.denied", "assistant.context_denied"]

/-- What a refusal says about an exit. -/
def PermissionState.ofRefusal (error : ErrorValue) : PermissionState :=
  if error.code.name ∈ ["provider.unavailable", "provider.unsupported"] then .unsupported
  else if error.code.name ∈ permissionCodes then .permissionDenied
  else .unknown

namespace Reader

variable (reader : Reader) (subject : SpatialId) (record : RecordValue)

/-- The refusal in a field, if one is there. -/
def refused (field label : String) : Option Withheld :=
  match record.get field with
  | some (.error error _) =>
    some ⟨subject, label, .ofRefusal error.error, error.error.message⟩
  | _ => none

/-- A relation to a far end, where a relation of the name is declared or contributed. -/
def push (relation : String) (subjectIsSource : Bool) (far : FarEnd) (confidence : Confidence)
    (attributes : MapValue) : List Fact :=
  match reader.geography.relations.find? fun spec => spec.id == relation with
  | some spec => [⟨subject, subjectIsSource, spec, far, confidence, record.provenance, attributes⟩]
  | none => []

/-- Reads a field: the refusal in it, or what is asserted of it. -/
def reading (field label : String) (facts : List Fact) : Assertions :=
  match refused subject record field label with
  | some refusal => ⟨[], [refusal]⟩
  | none => ⟨facts, []⟩

/-- Relates the place to the one a field refers to. The parent process is given by its number, not
by a record. -/
def relate (field label : String) (farType : SpatialType) (relation : String)
    (subjectIsSource : Bool) : Assertions :=
  reading subject record field label <|
    match (record.get field).bind fun value =>
      if field = "ppid" then reader.text (some value) else reader.referenceKey value farType with
    | some key => reader.push subject record relation subjectIsSource (.known farType key) .exact []
    | none => []

/-- The id of the container a control group path runs in: 64 hexadecimal digits that end a segment. -/
def containerIdIn (cgroup : String) : Option String :=
  (cgroup.toList.splitOn '/').reverse.findSome? fun segment =>
    let segment := if ".scope".toList.isSuffixOf segment then segment.take (segment.length - 6)
      else segment
    let candidate := (segment.reverse.takeWhile (· ≠ '-')).reverse
    if candidate.length = 64 ∧ candidate.all fun digit =>
        digit.isDigit ∨ digit.toLower ∈ ['a', 'b', 'c', 'd', 'e', 'f'] then
      some (String.ofList candidate)
    else none

/-- The relations of a process to its control group, and to the container the group's path names. -/
def cgroupFacts (path : String) : List Fact :=
  reader.push subject record "process.member_of_cgroup" true
      (.composed .cgroup "ono.cgroup/1" "path" path) .exact [] ++
    match containerIdIn path with
    | some container =>
      reader.push subject record "container.contains_process" false (.known .container container)
        .strong [("evidence", .string path)]
    | none => []

/-- The relation of a connection to the listener it was accepted by, through the endpoint the two
share. -/
def acceptedBy (endpoint : String) : List Fact :=
  let port := afterLast ':' endpoint
  (("listener@" ++ endpoint) :: if port ≠ "" then ["listener@*:" ++ port] else []).flatMap fun key =>
    reader.push subject record "socket.accepts_connection" false (.known .listener key) .strong
      [("evidence", .string endpoint)]

/-- What a record asserts of its place, field by field. -/
def assertionsOf : SpatialType → List Assertions
  | .process =>
    [reader.relate subject record "ppid" "parent" .process "process.parent_of" false,
      reader.relate subject record "service" "service" .service "service.controls_process" false,
      reader.relate subject record "user" "user" .user "process.run_by_user" true,
      reader.relate subject record "container" "container" .container "container.contains_process"
        false,
      reading subject record "pid_namespace" "namespaces" <|
        match reader.text (record.get "pid_namespace") with
        | some key => reader.push subject record "process.in_namespace" true
            (.composed .networkNamespace "ono.namespace/1" "id" key) .exact []
        | none => [],
      reading subject record "cgroup" "cgroup" <|
        match reader.text (record.get "cgroup") with
        | some path => reader.cgroupFacts subject record path
        | none => [],
      reading subject record "open_files" "files" <|
        (reader.listOf record "open_files").flatMap fun path =>
          reader.push subject record "process.opened_file" true (.known .file path) .exact []]
  | .socket => socket false
  | .listener => socket false
  | .connection => socket true
  | .file => [reader.relate subject record "owner" "owner" .user "user.owns_file" false]
  | .directory => [reader.relate subject record "owner" "owner" .user "user.owns_file" false]
  | .filesystem =>
    [reading subject record "target" "mounts" <|
        match reader.text (record.get "target") with
        | some target => reader.push subject record "filesystem.mounted_at" true
            (.known .mount target) .exact []
        | none => [],
      reading subject record "source" "device" <|
        match reader.text (record.get "source") with
        | some source => reader.push subject record "device.backs_filesystem" false
            (.known .blockDevice source) .strong [("evidence", .string source)]
        | none => []]
  | .mount =>
    [reading subject record "target" "directory" <|
      match reader.text (record.get "target") with
      | some target => reader.push subject record "mount.backs_directory" true
          (.known .directory target) .exact []
      | none => []]
  | .address =>
    [reader.relate subject record "interface" "interface" .interface "interface.has_address" false]
  | .route =>
    [reader.relate subject record "interface" "interface" .interface "route.via_interface" true]
  | .user =>
    [reader.relate subject record "primary_group" "groups" .group "user.member_of_group" true]
  | _ => []
where
  /-- The relations of a socket: its owner, the listener of a connection, and its peer. -/
  socket (connection : Bool) : List Assertions :=
    [reader.relate subject record "process" "owner" .process "process.owns_socket" false,
      ⟨if connection then
        ((reader.endpointName record "local").map
          (reader.acceptedBy subject record)).getD []
        else [], []⟩,
      reading subject record "remote" "peer" <|
        match reader.endpointName record "remote" with
        | some peer => reader.push subject record "socket.connected_to" true
            (.composed .endpoint "ono.endpoint/1" "endpoint" peer) .exact []
        | none => []]

/-- What a record of a kind asserts of its place. -/
def factsOf (kind : SpatialType) : Assertions where
  facts := (reader.assertionsOf subject record kind).flatMap (·.facts)
  withheld := (reader.assertionsOf subject record kind).flatMap (·.withheld)

end Reader

end OnoSendai.Spatial
