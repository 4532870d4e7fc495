import Ratatoskr.Rte.Spliced
import Ratatoskr.Rte.Restored
import Ratatoskr.Rte.Tracking
import Ratatoskr.Journal.Completion
import Ratatoskr.Journal.Order
import Ratatoskr.Threading.Calls
import Ratatoskr.Threading.Ids
import Ratatoskr.Calendar.Slots
import Ratatoskr.Calendar.HostZone
import Ratatoskr.Calendar.Creates
import Ratatoskr.App.Delivery
import Ratatoskr.Labels.Derived
import Ratatoskr.Labels.Intents
import Ratatoskr.Consumer.Converge
import Ratatoskr.Consumer.Acks
import Ratatoskr.Consumer.Counted
import Ratatoskr.Mail.Targets
import Ratatoskr.Containers.Evidence
import Ratatoskr.Containers.Kinds
import Ratatoskr.SmartFolder.Repeat
import Ratatoskr.Actions.Intent
import Ratatoskr.Actions.Parts
import Ratatoskr.Calendar.Unsaved
import Ratatoskr.Calendar.Reopened
import Ratatoskr.Drafts.Replay
import Ratatoskr.Send.Once
import Ratatoskr.Send.Kept
import Ratatoskr.Send.ReplyAll
import Ratatoskr.Search.Found
import Ratatoskr.Sidebar.Pills
import Ratatoskr.Sidebar.Drafts
import Ratatoskr.Sidebar.Shared
import Ratatoskr.Sidebar.FolderTree
import Ratatoskr.Calendar.Days
import Ratatoskr.Calendar.SideBySide
import Ratatoskr.Html.RemoteImages
import Ratatoskr.Calendar.Denoted
import Ratatoskr.Pack.Harmless
import Ratatoskr.Rte.Pasted
import Ratatoskr.Rte.Compose
import Ratatoskr.Ipc.Framing
import Ratatoskr.Cmdk.Saved
import Ratatoskr.App.Undo
import Ratatoskr.Import.Lists
import Ratatoskr.Import.Paste
import Ratatoskr.SmartFolder.SearchBox
import Ratatoskr.Mail.Deletion
import Ratatoskr.Mail.Expunged
import Ratatoskr.Contacts.Groups
import Ratatoskr.Consumer.ScopeKeys
import Ratatoskr.Squeeze.Signed
import Ratatoskr.Containers.Settings
import Ratatoskr.Containers.Parents
