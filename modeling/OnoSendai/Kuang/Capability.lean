import Mathlib.Data.List.Basic

/-!
# Capabilities of plugin packages

The capability families a package may ask for, the scope keys each of them declares, and whether
the broker checks a key on every call or only records it.
-/

namespace OnoSendai.Kuang

/-- Whether the broker checks a scope or only records it. -/
inductive Enforcement
  | broker
  | advisory
deriving DecidableEq, Repr

/-- The value shape of a scope key. -/
inductive ScopeKind
  | pathGlob
  | hostList
  | portList
  | nameList
  | idList
  | signalList
  | predicate
  | window
  | classList
deriving DecidableEq, Repr

/-- A scope key a family declares. -/
structure ScopeKey where
  name : String
  kind : ScopeKind
  enforcement : Enforcement
deriving DecidableEq

/-- A scope key the broker checks. -/
def ScopeKey.broker (name : String) (kind : ScopeKind) : ScopeKey :=
  ⟨name, kind, .broker⟩

/-- A scope key the host records and cannot check. -/
def ScopeKey.advisory (name : String) (kind : ScopeKind) : ScopeKey :=
  ⟨name, kind, .advisory⟩

/-- The capability families. -/
inductive Capability
  | objectRead
  | schemaRead
  | processRead
  | processSignal
  | processExec
  | filesystemRead
  | filesystemWrite
  | filesystemWatch
  | networkObserve
  | networkConnect
  | networkListen
  | serviceRead
  | serviceMutate
  | containerRead
  | containerExec
  | remoteRead
  | remoteMutate
  | historyRead
  | historyWrite
  | contextRead
  | uiView
  | uiNotify
  | relationRead
  | relationWrite
  | secretUse
  | modelInfer
  | pluginInvoke
  | statePersist
  | clockRead
  | providerMutate
  | temporalReadCurrent
  | temporalReadHistory
  | temporalReadEvidence
  | temporalContributeEvents
  | temporalContributeCausality
  | temporalRecorderManage
  | changePlanRead
  | changePlanContribute
  | changeActionExecute
  | verificationObserve
  | recoveryDiscover
  | recoveryPrepare
  | recoveryRestore
  | recoveryCleanup
  | recoveryEstimateCost
  | recoveryQuiesce
  | recoveryTransaction
deriving DecidableEq, Repr

namespace Capability

/-- Every family, in registry order. -/
def all : List Capability :=
  [objectRead, schemaRead, processRead, processSignal, processExec, filesystemRead, filesystemWrite,
    filesystemWatch, networkObserve, networkConnect, networkListen, serviceRead, serviceMutate,
    containerRead, containerExec, remoteRead, remoteMutate, historyRead, historyWrite, contextRead,
    uiView, uiNotify, relationRead, relationWrite, secretUse, modelInfer, pluginInvoke,
    statePersist, clockRead, providerMutate, temporalReadCurrent, temporalReadHistory,
    temporalReadEvidence, temporalContributeEvents, temporalContributeCausality,
    temporalRecorderManage, changePlanRead, changePlanContribute, changeActionExecute,
    verificationObserve, recoveryDiscover, recoveryPrepare, recoveryRestore, recoveryCleanup,
    recoveryEstimateCost, recoveryQuiesce, recoveryTransaction]

/-- The id of a family. -/
def id : Capability → String
  | objectRead => "object.read"
  | schemaRead => "schema.read"
  | processRead => "process.read"
  | processSignal => "process.signal"
  | processExec => "process.exec"
  | filesystemRead => "filesystem.read"
  | filesystemWrite => "filesystem.write"
  | filesystemWatch => "filesystem.watch"
  | networkObserve => "network.observe"
  | networkConnect => "network.connect"
  | networkListen => "network.listen"
  | serviceRead => "service.read"
  | serviceMutate => "service.mutate"
  | containerRead => "container.read"
  | containerExec => "container.exec"
  | remoteRead => "remote.read"
  | remoteMutate => "remote.mutate"
  | historyRead => "history.read"
  | historyWrite => "history.write"
  | contextRead => "context.read"
  | uiView => "ui.view"
  | uiNotify => "ui.notify"
  | relationRead => "relation.read"
  | relationWrite => "relation.write"
  | secretUse => "secret.use"
  | modelInfer => "model.infer"
  | pluginInvoke => "plugin.invoke"
  | statePersist => "state.persist"
  | clockRead => "clock.read"
  | providerMutate => "provider.mutate"
  | temporalReadCurrent => "temporal.read.current"
  | temporalReadHistory => "temporal.read.history"
  | temporalReadEvidence => "temporal.read.evidence"
  | temporalContributeEvents => "temporal.contribute.events"
  | temporalContributeCausality => "temporal.contribute.causality"
  | temporalRecorderManage => "temporal.recorder.manage"
  | changePlanRead => "change.plan.read"
  | changePlanContribute => "change.plan.contribute"
  | changeActionExecute => "change.action.execute"
  | verificationObserve => "verification.observe"
  | recoveryDiscover => "recovery.discover"
  | recoveryPrepare => "recovery.prepare"
  | recoveryRestore => "recovery.restore"
  | recoveryCleanup => "recovery.cleanup"
  | recoveryEstimateCost => "recovery.estimate-cost"
  | recoveryQuiesce => "recovery.quiesce"
  | recoveryTransaction => "recovery.transaction"

/-- The scope keys a family declares; none for a family that is not scoped. -/
def scopeKeys : Capability → List ScopeKey
  | objectRead => [.broker "schemas" .idList, .broker "targets" .idList]
  | processRead => [.broker "selector" .predicate]
  | processSignal => [.broker "signals" .signalList, .broker "selector" .predicate]
  | processExec =>
    [.broker "programs" .pathGlob, .broker "executables" .idList, .broker "argv_policy" .nameList]
  | filesystemRead => [.broker "paths" .pathGlob]
  | filesystemWrite => [.broker "paths" .pathGlob]
  | filesystemWatch => [.broker "paths" .pathGlob]
  | networkConnect => [.broker "hosts" .hostList, .broker "ports" .portList]
  | networkListen => [.broker "ports" .portList]
  | serviceRead => [.broker "units" .nameList]
  | serviceMutate => [.broker "units" .nameList]
  | containerRead => [.broker "containers" .nameList]
  | containerExec => [.broker "containers" .nameList]
  | remoteRead => [.broker "links" .nameList]
  | remoteMutate => [.broker "links" .nameList]
  | historyRead => [.broker "window" .window]
  | relationWrite => [.broker "relations" .idList]
  | secretUse => [.broker "secrets" .nameList]
  | modelInfer => [.broker "providers" .nameList, .advisory "data_class" .classList]
  | pluginInvoke => [.broker "plugins" .nameList]
  | providerMutate =>
    [.advisory "instances" .idList, .advisory "resources" .idList, .advisory "actions" .nameList]
  | temporalReadHistory => [.broker "window" .window]
  | temporalContributeEvents => [.broker "kinds" .nameList]
  | temporalContributeCausality => [.broker "rules" .idList]
  | changePlanRead => [.broker "plans" .idList, .broker "schemas" .idList]
  | changePlanContribute => [.advisory "schemas" .idList]
  | changeActionExecute => [.advisory "schemas" .idList, .advisory "plans" .idList]
  | verificationObserve => [.advisory "schemas" .idList]
  | recoveryDiscover => [.broker "domain_kinds" .nameList]
  | recoveryPrepare => [.broker "domain_kinds" .nameList, .broker "scopes" .idList]
  | recoveryRestore => [.broker "domain_kinds" .nameList, .broker "scopes" .idList]
  | recoveryCleanup => [.broker "domain_kinds" .nameList, .broker "scopes" .idList]
  | recoveryEstimateCost => [.broker "domain_kinds" .nameList]
  | recoveryQuiesce => [.advisory "applications" .nameList]
  | recoveryTransaction => [.advisory "applications" .nameList]
  | _ => []

end Capability

end OnoSendai.Kuang
