import SndNet.Data.Vec.Capacity
import SndNet.Init
import SndNet.Io.NaddrText.Buffers
import SndNet.Io.NaddrText.Grammar
import SndNet.Net.Addr.Distance
import SndNet.Net.Addr.Order
import SndNet.Net.Entry.Closest
import SndNet.Net.EntrySer
import SndNet.Net.Packet.Queue
import SndNet.Net.Router.Removal
import SndNet.Net.Router.Direct
import SndNet.Net.Router.Nearest
import SndNet.Net.Router.Readding
import SndNet.Net.Router.Agreement
import SndNet.Net.Router.Cycles
import SndNet.Net.Router.Discovery
import SndNet.Net.Router.Table
import SndNet.Net.Router.Copy
import SndNet.Net.Router.Text
import SndNet.Net.Router.Range
import SndNet.Node.Delivery.Mesh
import SndNet.Node.Integrity
import SndNet.Node.Log
import SndNet.Node.Ping
import SndNet.Node.Start
import SndNet.Prototype.Commands
import SndNet.Prototype.Ending
import SndNet.Prototype.Message
import SndNet.Prototype.Overflow
import SndNet.Util.Closure.Slots
import SndNet.Library.Lines
