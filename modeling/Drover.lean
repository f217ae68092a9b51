import Drover.Expiry.Durations
import Drover.Expiry.Lookups
import Drover.Glasses.Limits
import Drover.Glasses.Mirror
import Drover.Glasses.Mount
import Drover.Glasses.Oldest
import Drover.Glasses.Pulls
import Drover.Glasses.Reask
import Drover.Glasses.Routing
import Drover.Mcp.Throttled
import Drover.OAuth.Codes
import Drover.OAuth.Consent
import Drover.OAuth.RedirectHosts
import Drover.OAuth.Refresh
import Drover.Push.Coherence
import Drover.Push.ContentHash
import Drover.Push.Staleness
import Drover.Push.Versions
import Drover.Records.Separate
import Drover.Relay.IdlePump
import Drover.Relay.Lone
import Drover.Relay.Stale
import Drover.SelfUpdate.ReleasePage
import Drover.Slave.Alone
import Drover.Slave.Bind
import Drover.Slave.Pairings
import Drover.Slave.Queues
import Drover.Slave.Removal
import Drover.Slave.Repush
import Drover.Slave.Wakes
import Drover.Slave.Webhooks
import Drover.Term.HistoryOnce
import Drover.Term.Reset
import Drover.Term.Retry
import Drover.Term.TrackScroll
import Drover.Watch.Supervisor
import Drover.Web.Accountable
import Drover.Web.Links
