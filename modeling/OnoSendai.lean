import OnoSendai.Adapters.Invocation
import OnoSendai.Change.Cycles
import OnoSendai.Change.Digest
import OnoSendai.Change.Drift
import OnoSendai.Change.Reference
import OnoSendai.Change.ValueText
import OnoSendai.Command.Narrow
import OnoSendai.Executor.Canary
import OnoSendai.Executor.Closing
import OnoSendai.Executor.Lease
import OnoSendai.Impact.Rising
import OnoSendai.Kuang.Decisions
import OnoSendai.Kuang.Output
import OnoSendai.Kuang.Pull
import OnoSendai.Kuang.Signature
import OnoSendai.Kuang.Upgrade
import OnoSendai.Link.ClientFile
import OnoSendai.Link.Failure
import OnoSendai.Link.Frame
import OnoSendai.Link.Serve
import OnoSendai.Link.StreamTable
import OnoSendai.Netlink.Transport
import OnoSendai.Netlink.Watch
import OnoSendai.Pipeline.Agreement
import OnoSendai.Pipeline.Diff
import OnoSendai.Pipeline.Group
import OnoSendai.Pipeline.Join
import OnoSendai.Protection.Cleanup
import OnoSendai.Protection.Declared
import OnoSendai.Protection.Hosts
import OnoSendai.Protection.MountByMount
import OnoSendai.Protection.Serving
import OnoSendai.Recall.Record
import OnoSendai.Recovery.Newer
import OnoSendai.Recovery.Rebuilt
import OnoSendai.Spatial.Consistency
import OnoSendai.Spatial.Forest
import OnoSendai.Spatial.Settled
import OnoSendai.Temporal.Answered
import OnoSendai.Temporal.Composition
import OnoSendai.Temporal.Continuity
import OnoSendai.Temporal.Density
import OnoSendai.Temporal.Merge
import OnoSendai.Temporal.References
import OnoSendai.Temporal.Retention
import OnoSendai.Value.Equivalence
import OnoSendai.Value.MapText
import OnoSendai.Value.ObjectId
