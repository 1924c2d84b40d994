import Muster.Bytes.Hex
import Muster.Bytes.Sha256
import Muster.Bytes.Word
import Muster.Identity.NodeId
import Muster.Identity.Token
import Muster.Wire.Code
import Muster.Rolls
import Muster.Wire.Kind
import Muster.Wire.Sequence
import Muster.Wire.Header
import Muster.Wire.Packet
import Muster.Agenda
import Muster.Link.Basic
import Muster.Group.Directory
import Muster.Server.Basic
import Muster.Client.Config
import Muster.Client.Error
import Muster.Client.MemberCount
import Muster.Client.Membership
import Muster.Client.Call
import Muster.Client.Shutdown
import Muster.Client.Connection
import Muster.Server.Switchboard
import Muster.Proofs.Directory.Meeting
import Muster.Proofs.Directory.Audience
import Muster.Proofs.Network.Answers
import Muster.Proofs.Network.Agreement
import Muster.Proofs.Network.Success
import Muster.Proofs.Server.Idle
import Muster.Proofs.Server.Notices
import Muster.Proofs.Server.Retry
import Muster.Proofs.Client.Verdict
import Muster.Proofs.Wire.Codec
import Muster.Proofs.Link.Conduit
import Muster.Agenda.Heap
import Muster.Proofs.Agenda.Heap
import Muster.Proofs.Directory.Activity
import Muster.Proofs.Threads.Attached
import Muster.Proofs.Threads.Teardown
import Muster.Proofs.Agenda.Drain
import Muster.Proofs.Server.Responses
import Muster.Proofs.Link.Output
import Muster.Proofs.Link.Outstanding
import Muster.Proofs.Switchboard.Delivery
import Muster.Proofs.Server.Capacity
import Muster.Proofs.Directory.Isolation
import Muster.Proofs.Directory.Order
import Muster.Proofs.Threads.Origins
import Muster.Proofs.Network.Timeouts
import Muster.Proofs.Server.Clock
