import DcHub.Go
import DcHub.Adc.Slice
import DcHub.Adc.Packet
import DcHub.Adc.Marshal
import DcHub.Adc.FeatureLoop
import DcHub.Adc.Decode
import DcHub.Adc.RoundTrip
import DcHub.Adc.Malformed
import DcHub.Adc.Safety
import DcHub.Adc.ReadBack
import DcHub.Adc.Session
import DcHub.Adc.PeerHandshake
import DcHub.Hub.Names
import DcHub.Irc.Message
import DcHub.Irc.Relay
import DcHub.Hub.Registry
import DcHub.Hub.Roster
import DcHub.Irc.Conn
import DcHub.Irc.Handshake
import DcHub.Irc.Negotiation
import DcHub.Irc.Lifecycle
import DcHub.Irc.Serve
import DcHub.Irc.Accept
import DcHub.Irc.Session
import DcHub.Irc.Guarantee
import DcHub.Irc.Presence
