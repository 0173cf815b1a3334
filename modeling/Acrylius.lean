import Acrylius.Core.Confirmation
import Acrylius.Rt.Store
import Acrylius.Rt.FileStore
import Acrylius.Rt.Bulk
import Acrylius.Rt.Exact
import Acrylius.Ffi.Bulk
import Acrylius.Linux.Ble
import Acrylius.Daemon.Leftovers
import Acrylius.Rt.Browse
import Acrylius.Core.Presence
import Acrylius.Net.InStep
import Acrylius.Core.Gate
import Acrylius.Core.Channels
import Acrylius.Plugins.Isolation
import Acrylius.Plugins.Endings
import Acrylius.Plugins.Outcomes
import Acrylius.Core.Cooldown
import Acrylius.Core.Revocation
import Acrylius.Core.Deadlines
import Acrylius.Core.Reaching
import Acrylius.Core.Errors
import Acrylius.Core.Custody
import Acrylius.Core.Discipline
import Acrylius.Core.Heartbeat
import Acrylius.Core.Stranding
import Acrylius.Core.Answers
import Acrylius.Core.Tokens
import Acrylius.Core.Screen
import Acrylius.Core.Walks
import Acrylius.Core.Troubles
import Acrylius.Core.Keys
import Acrylius.Linux.Touchpad
import Acrylius.Linux.Slots
import Acrylius.Linux.Usb
import Acrylius.Linux.Wol
import Acrylius.Plugins.Builtin
import Acrylius.Plugins.Laws
import Acrylius.Plugins.Replies
import Acrylius.Plugins.WayBack
import Acrylius.Plugins.Inline
import Acrylius.Plugins.Echoes
import Acrylius.Plugins.Strokes
import Acrylius.Plugins.Pushed
import Acrylius.Daemon.Pending
import Acrylius.Daemon.Prompt
import Acrylius.Daemon.Reconcile
import Acrylius.Proto.Ble
import Acrylius.Proto.SafeName
import Acrylius.Proto.Bulk
import Acrylius.Mock
import Acrylius.Rt.Tcp
import Acrylius.Rt.Runtime
import Acrylius.Linux.UsbSession
import Acrylius.Net.Pairing
import Acrylius.Net.Hosts
import Acrylius.Plugins.Warrants
import Acrylius.Daemon.Answered
import Acrylius.Plugins.Sources
import Acrylius.Daemon.Control
