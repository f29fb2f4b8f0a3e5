import Parley.Config.MemoryFiles
import Parley.Main
import Parley.Proofs.Digest
import Parley.Proofs.Json
import Parley.Proofs.Ledger
import Parley.Proofs.Loading
import Parley.Proofs.Message
import Parley.Proofs.Negotiation.Coherence
import Parley.Proofs.Negotiation.Delivery
import Parley.Proofs.Negotiation.Lapse
import Parley.Proofs.Precision
import Parley.Proofs.Proxy.Closure
import Parley.Proofs.Proxy.Events
import Parley.Proofs.Proxy.Frame
import Parley.Proofs.Proxy.Freshness
import Parley.Proofs.Proxy.Replay
import Parley.Proofs.Proxy.Shown
import Parley.Proofs.Rendering
import Parley.Proofs.Validity
import Parley.Proofs.World.Agreement
