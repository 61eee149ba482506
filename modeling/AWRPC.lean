import AWRPC.Lib.JsonGrammar
import AWRPC.Reader
import AWRPC.ReaderStrings
import AWRPC.ReaderNumbers
import AWRPC.ReaderValues
import AWRPC.ReaderInsitu
import AWRPC.Lib.CharArray
import AWRPC.Lib.DefaultMap
import AWRPC.Lib.Machine
import AWRPC.Lib.ChangeDetector
import AWRPC.Lib.Utf8
import AWRPC.Helper
import AWRPC.Discord
import AWRPC.Memutils
import AWRPC.Main
import AWRPC.Presence
import AWRPC.Bounds
import AWRPC.Simulation
import AWRPC.Updates
import AWRPC.Decoding
import AWRPC.Attachment
import AWRPC.Session
import AWRPC.PresenceLink
import AWRPC.Lib.Decimal
import AWRPC.Lib.JsonText
import AWRPC.Itoa
import AWRPC.Writer
import AWRPC.Serialization
import AWRPC.Delivery
import AWRPC.Commands
import AWRPC.Lib.Framing
import AWRPC.Document
import AWRPC.Connection
import AWRPC.Conversation
import AWRPC.MsgQueue
import AWRPC.Client
import AWRPC.ClientRuns
import AWRPC.ClientPipes
import AWRPC.ClientLink
import AWRPC.Shutdown
import AWRPC.Signals
import AWRPC.SignalsLink
