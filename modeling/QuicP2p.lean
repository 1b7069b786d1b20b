import QuicP2p.Hyparview.JoinWalk
import QuicP2p.Hyparview.Panics
import QuicP2p.Plumtree.Patience
import QuicP2p.Plumtree.Repair
import QuicP2p.Plumtree.Passes
import QuicP2p.Plumtree.Wakeup
import QuicP2p.Plumtree.SpanningTree
import QuicP2p.P2p.Chat
import QuicP2p.P2p.Clock
import QuicP2p.P2p.Tls
import QuicP2p.P2p.Overdue
import QuicP2p.P2p.Teardown
import QuicP2p.P2p.History
import QuicP2p.P2p.Input
import QuicP2p.P2p.Overlay
import QuicP2p.P2p.Delivery
import QuicP2p.P2p.Polling
import QuicP2p.Plumtree.Traffic
import QuicP2p.Plumtree.Redundancy
