import Crabscale.Control.Approvals
import Crabscale.Control.Coalescing
import Crabscale.Control.Confinement
import Crabscale.Control.DnsNames
import Crabscale.Control.KnownPeers
import Crabscale.Control.LostUpdates
import Crabscale.Control.MapFrame
import Crabscale.Control.OidcUsers
import Crabscale.Control.PendingTable
import Crabscale.Control.Reaping
import Crabscale.Control.Restore
import Crabscale.Control.RoutePropagation
import Crabscale.Control.SingleUse
import Crabscale.Control.SshRaces
import Crabscale.Control.SshTable
import Crabscale.Control.TagRejection
import Crabscale.Derp.Presence
import Crabscale.Derp.WebSocketPongs
import Crabscale.Policy.Destinations
import Crabscale.Policy.Protocols
import Crabscale.Server.FailedDeltas
import Crabscale.Server.Isolation
import Crabscale.Server.Proxy
import Crabscale.Server.Query
import Crabscale.Server.RateLimit
import Crabscale.Transport.Reading
import Crabscale.Transport.Writing
import Crabscale.Proto.Frame
