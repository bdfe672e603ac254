import Freebird.Inbox.Tier
import Freebird.Inbox.Upgrade
import Freebird.Inbox.Agreement
import Freebird.Inbox.Quiescence
import Freebird.Inbox.Shell
import Freebird.Inbox.Eviction
import Freebird.Inbox.Cleanup
import Freebird.Inbox.Rejected
import Freebird.Directory.Convergence
import Freebird.Directory.Sync
import Freebird.Directory.Shell
import Freebird.Directory.Shortcut
import Freebird.Directory.Rejected
import Freebird.Feed.Convergence
import Freebird.Feed.Shell
import Freebird.Cell.Sync
import Freebird.Avatar.Update
import Freebird.Common.Pow
import Freebird.Contract.Signing
import Freebird.Contract.Latch
import Freebird.Contract.Equivocation
import Freebird.Delegate.Isolation
import Freebird.Ui.Migration
import Freebird.Ui.Overlap
import Freebird.Ui.Gate
import Freebird.Ui.Own
import Freebird.Ui.Legacy
import Freebird.Ui.Control
import Freebird.Ui.Thread
import Freebird.Ui.Anchor
import Freebird.Ui.LegacyInbox
import Freebird.Ui.LegacyDirectory
import Freebird.Transition.Gossip
import Freebird.Feed.Lattice
import Freebird.Feed.Network
import Freebird.Feed.Rejected
import Freebird.Ui.Held
import Freebird.Ui.Store
import Freebird.Ui.Authentic
import Freebird.Register.Views
import Freebird.Ui.Registers
import Freebird.Ui.Route
