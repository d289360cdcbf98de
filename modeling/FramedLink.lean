import FramedLink.Endpoint
import FramedLink.Link.Sink
import FramedLink.Proofs.Acknowledging
import FramedLink.Proofs.Answering
import FramedLink.Proofs.Asking
import FramedLink.Proofs.Capacity
import FramedLink.Proofs.Chunking
import FramedLink.Proofs.Completing
import FramedLink.Proofs.Correspondence
import FramedLink.Proofs.Counting
import FramedLink.Proofs.Damage
import FramedLink.Proofs.Dating
import FramedLink.Proofs.Disconnecting
import FramedLink.Proofs.Encoding
import FramedLink.Proofs.Forgetting
import FramedLink.Proofs.Gaps
import FramedLink.Proofs.GivingWay
import FramedLink.Proofs.GoingBack
import FramedLink.Proofs.GreedyDecoding
import FramedLink.Proofs.Handing
import FramedLink.Proofs.Hearing
import FramedLink.Proofs.Idling
import FramedLink.Proofs.InOrder
import FramedLink.Proofs.Incidents
import FramedLink.Proofs.Indifference
import FramedLink.Proofs.LossNotices
import FramedLink.Proofs.Lossless
import FramedLink.Proofs.Mailing
import FramedLink.Proofs.Messages
import FramedLink.Proofs.Numbering
import FramedLink.Proofs.Posting
import FramedLink.Proofs.Precedence
import FramedLink.Proofs.Reassembling
import FramedLink.Proofs.Reception
import FramedLink.Proofs.Recovery
import FramedLink.Proofs.Releasing
import FramedLink.Proofs.Renewal
import FramedLink.Proofs.Replying
import FramedLink.Proofs.Requesting
import FramedLink.Proofs.Resynchronisation
import FramedLink.Proofs.Separators
import FramedLink.Proofs.Standing
import FramedLink.Proofs.Storage
import FramedLink.Proofs.StreamCounts
import FramedLink.Proofs.Transmission
import FramedLink.Proofs.WholeMessages
import FramedLink.Simulation.Application
import FramedLink.Simulation.Exchange
import FramedLink.Version
