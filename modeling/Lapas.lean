import Lapas.Rust
import Lapas.Keep.Regex
import Lapas.Keep.DecisionGraph
import Lapas.Keep.LastRule
import Lapas.Keep.DoubleStar
import Lapas.Keep.Engine
import Lapas.Keep.Pruning
import Lapas.Keep.Cleanup
import Lapas.Library.Overlay
import Lapas.Keep.Layers
import Lapas.Library.Wire
import Lapas.Proto.Serde
import Lapas.Proto.Models
import Lapas.Proto.Protocol
import Lapas.Daemon.Framing
import Lapas.Server.IndexFile
import Lapas.Server.Crash
import Lapas.Proto.Session
import Lapas.Server.ApiServer
import Lapas.Daemon.AuthServer
import Lapas.Daemon.Coherence
import Lapas.Keep.Bounds
import Lapas.Keep.Walk
import Lapas.Keep.DryRun
import Lapas.Keep.Failures
import Lapas.Server.Atomic
import Lapas.Library.LockedWriter
import Lapas.Server.PeerTx
import Lapas.Install.Config
import Lapas.Server.Notification
import Lapas.Guest.Userdata
import Lapas.Guest.Symlinks
import Lapas.Library.Coreutils
import Lapas.Guest.WineUserdata
import Lapas.Guest.TmpFolder
import Lapas.Library.PyText
import Lapas.Library.Inserts
import Lapas.Guest.DesktopEntry
import Lapas.Guest.Launchers
import Lapas.Guest.MountHome
import Lapas.Guest.MountLines
import Lapas.Guest.OpenSession
import Lapas.Guest.Stages
import Lapas.Guest.Logins
import Lapas.Keep.Globs
import Lapas.Keep.Grammar
import Lapas.Guest.ApiPassword
import Lapas.Guest.Homes
import Lapas.Guest.NameLookup
import Lapas.Server.Dns
import Lapas.Install.ConfigureStream
import Lapas.Library.Thinning
import Lapas.Keep.Recovery
import Lapas.Keep.Shipped
import Lapas.Library.Mutex
import Lapas.Server.Locks
import Lapas.Client.Commands
import Lapas.Client.Outcomes
import Lapas.Client.Progress
import Lapas.Daemon.Monotone
import Lapas.Guest.Lookups
import Lapas.Guest.Boots
import Lapas.Guest.Outlives
import Lapas.Library.Inclusion
import Lapas.Library.Lines
import Lapas.Install.Bundle
import Lapas.Install.Payload
import Lapas.Guest.AddUser
