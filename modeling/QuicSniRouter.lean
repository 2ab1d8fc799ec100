import QuicSniRouter.Dataplane.Conservation
import QuicSniRouter.Dataplane.EndToEnd
import QuicSniRouter.Dataplane.FlowExpiry
import QuicSniRouter.Dataplane.Isolation
import QuicSniRouter.Dataplane.Learned
import QuicSniRouter.Dataplane.Sender
import QuicSniRouter.Dataplane.ShortAliases
import QuicSniRouter.FlowTable.Eviction
import QuicSniRouter.FlowTable.Ledger
import QuicSniRouter.Quic.Bounds
import QuicSniRouter.Quic.StreamMerge
import QuicSniRouter.SessionTable.Deletion
import QuicSniRouter.SessionTable.Incremental
import QuicSniRouter.SessionTable.KeyEncoding
import QuicSniRouter.SessionTable.Retirement
import QuicSniRouter.Tls.Truncation
