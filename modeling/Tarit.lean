import Tarit.Lib.Bytes
import Tarit.Snapshot.Format
import Tarit.Snapshot.GuestMemory
import Tarit.Snapshot.Reader
import Tarit.Lib.Overlay
import Tarit.Snapshot.Chain
import Tarit.Snapshot.ChainOrder
import Tarit.Lib.SparseFile
import Tarit.Snapshot.Writer
import Tarit.Snapshot.DiffWriter
import Tarit.Snapshot.RoundTrip
import Tarit.Snapshot.ChainApply
import Tarit.Snapshot.ChainMap
import Tarit.Snapshot.Deferred
import Tarit.Snapshot.FullWriters
import Tarit.Lib.DirtyTracking
import Tarit.Lib.Interleave
import Tarit.Live.Machine
import Tarit.Live.DirtyLog
import Tarit.Live.Copy
import Tarit.Live.LazyCopy
import Tarit.Live.Snapshot
import Tarit.Live.Conduct
import Tarit.Live.Progress
import Tarit.Virtio.Memory
import Tarit.Virtio.Queue
import Tarit.Virtio.Rules
import Tarit.Virtio.Rounds
import Tarit.Virtio.Kick
import Tarit.Virtio.Mergeable
import Tarit.Virtio.Chains
import Tarit.Virtio.Interrupts
import Tarit.Virtio.NetWorker
import Tarit.Virtio.Pending
import Tarit.Virtio.TxWorker
import Tarit.Virtio.RateLimits
import Tarit.Virtio.Vsock
import Tarit.Virtio.VsockRuns
import Tarit.Virtio.VsockStreams
import Tarit.Virtio.VsockCredit
import Tarit.Virtio.VsockRestore
import Tarit.Fleet.Records
import Tarit.Fleet.Calls
import Tarit.Fleet.Writes
import Tarit.Fleet.Ownership
import Tarit.Fleet.References
import Tarit.Fleet.Volumes
import Tarit.Lib.Fallible
import Tarit.Lib.Table
import Tarit.Store.Volumes
import Tarit.Volumes.Crashes
import Tarit.Usage.Outbox
import Tarit.Usage.Runtime
import Tarit.Node.Records
import Tarit.Node.Status
import Tarit.Lib.JsonText
import Tarit.Shares.Tokens
import Tarit.Shares.Repository
import Tarit.Fleet.Autoscale
import Tarit.Store.Artifacts
import Tarit.Admission.Calls
import Tarit.Admission.Forks
import Tarit.Node.Terminal
import Tarit.Supervisor.Registries
import Tarit.Supervisor.WarmClaims
import Tarit.Supervisor.Network
import Tarit.Supervisor.NetworkRuns
import Tarit.Lib.Ipv4
import Tarit.Net.Text
import Tarit.Net.Policies
import Tarit.Net.Filter
import Tarit.Net.Isolation
import Tarit.Peer.Requests
import Tarit.Gateway.SshKeys
import Tarit.Devices.Serial
import Tarit.Pty.Start
import Tarit.Image.Digests
import Tarit.Image.Collection
