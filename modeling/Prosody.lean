import Prosody.Library.Events
import Prosody.Library.Keyed
import Prosody.Library.Outbox
import Prosody.Library.Runs
import Prosody.Library.Separator
import Prosody.Library.Table
import Prosody.Core.Authentic
import Prosody.Core.Ports
import Prosody.Core.Loading
import Prosody.Core.Registry
import Prosody.Net.Starttls
import Prosody.Net.Connect
import Prosody.Net.Output
import Prosody.Roster.Agreement
import Prosody.Roster.Atomicity
import Prosody.Roster.Persistence
import Prosody.Roster.Removal
import Prosody.Roster.Versions
import Prosody.Roster.States
import Prosody.Presence.Carbons
import Prosody.Presence.LastPresence
import Prosody.Storage.Blocklist
import Prosody.Bosh.Order
import Prosody.Pubsub.Index
import Prosody.Pubsub.Permission
import Prosody.Muc.Occupancy
import Prosody.Muc.Ownership
import Prosody.Muc.AdminRequests
import Prosody.Muc.Bans
import Prosody.Muc.Frame
import Prosody.Muc.RoundTrip
import Prosody.Muc.PrivateIq
import Prosody.Muc.Provenance
import Prosody.Storage.Mam
import Prosody.Storage.Offline
import Prosody.Storage.Prefs
import Prosody.Storage.Sql
import Prosody.S2s.Delivery
import Prosody.Http.Pipelining
import Prosody.Http.Client
import Prosody.Http.Requests
import Prosody.Http.Responses
import Prosody.S2s.Binding
import Prosody.Sasl.Exchanges
import Prosody.Library.Paging
import Prosody.Library.Numbers
import Prosody.Websocket.Chunking
import Prosody.Xml.RoundTrip
import Prosody.Util.Runner
import Prosody.Util.RingSearch
import Prosody.Util.Queue
import Prosody.Util.Throttle
import Prosody.Util.Cache
import Prosody.Util.IndexedHeap
import Prosody.Util.X509
import Prosody.Sasl.Scram
import Prosody.Pubsub.Itemstores
import Prosody.Muc.Eviction
import Prosody.Net.Limits
import Prosody.Net.Timers
import Prosody.Net.Pause
import Prosody.Core.Csi
import Prosody.Muc.History
import Prosody.Roster.SharedGroups
import Prosody.Pep.VcardRoundTrip
import Prosody.Sasl.Digests
import Prosody.S2s.Targets
import Prosody.Websocket.Building
import Prosody.Util.Multitable
import Prosody.Util.Firing
import Prosody.Http.Routing
import Prosody.Util.Guarder
import Prosody.Util.JsonTotal
import Prosody.Util.JsonGrammar
import Prosody.Util.JsonRoundTrip
import Prosody.Util.JidForms
import Prosody.Util.IpNetworks
import Prosody.Util.Rfc6724
import Prosody.Util.Utf8Valid
import Prosody.Util.Base64Rfc
import Prosody.Xml.Copies
import Prosody.Xml.Trees
import Prosody.Http.Files
import Prosody.Storage.Listed
import Prosody.Util.Urlencoded
import Prosody.Storage.Callbacks
import Prosody.Storage.KeyIndex
import Prosody.Util.Rsm
import Prosody.Util.Filters
import Prosody.Util.Iterators
