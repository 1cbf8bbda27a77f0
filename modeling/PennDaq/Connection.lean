import PennDaq.XL3Link
import PennDaq.MTCDelivery

/-! Connections over a whole run. The functions that open one
(`XL3Link::AcceptCallback`, `MTCLink::Connect`, `GenericLink::AcceptCallback`) and
the one that closes one (`MTCLink::CloseConnection`) leave `fTempPacket`,
`fTempBytes` and `fBytesLeft` as they are. -/
namespace PennDaq.Connection
open Lib.Buffer

/-! An XL3 link. `EventCallback` has an empty body, so that a disconnect changes
nothing. -/

end PennDaq.Connection
