import Chirps.FileTransfer.Bandwidth
import Chirps.FileTransfer.Completion
import Chirps.FileTransfer.Finalize
import Chirps.FileTransfer.Journal
import Chirps.FileTransfer.Layout
import Chirps.FileTransfer.ReceiveHash
import Chirps.FileTransfer.Renames
import Chirps.FileTransfer.Resume
import Chirps.FileTransfer.Retries
import Chirps.FileTransfer.States
import Chirps.Gossip.Drift
import Chirps.Gossip.Envelope
import Chirps.Gossip.EventIds
import Chirps.Gossip.IndirectProbe
import Chirps.Gossip.StatusEvents
import Chirps.Memory.MemoryManager
import Chirps.Memory.RaftLogCache
import Chirps.Mock.MinimizeSchedule
import Chirps.MultiRaft.GroupNamespace
import Chirps.MultiRaft.Lifecycle
import Chirps.MultiRaft.NodeIds
import Chirps.Raft.RpcMatching
import Chirps.Raft.RpcPairing
import Chirps.Raft.SnapshotSender
import Chirps.RaftStorage.CacheShape
import Chirps.RaftStorage.CacheTransparency
import Chirps.RaftStorage.GroupCommit
import Chirps.RaftStorage.InstallCrash
import Chirps.RaftStorage.SnapshotReader
import Chirps.RaftStorage.Truncation
import Chirps.Transport.Accounting
import Chirps.Transport.BatchStream
import Chirps.Transport.Connections
import Chirps.Transport.Fairness
import Chirps.Transport.Restart
import Chirps.Transport.Send
import Chirps.Transport.Window
import Chirps.Tso.Refill
import Chirps.Tso.ResponsePump
import Chirps.Tso.Uniqueness
