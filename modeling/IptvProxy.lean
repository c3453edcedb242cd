import IptvProxy.Cache.Crash
import IptvProxy.Cache.EmptyCatalog
import IptvProxy.Cache.SingleFlight
import IptvProxy.Cache.Removal
import IptvProxy.Cache.Pacing
import IptvProxy.Bulk.Status
import IptvProxy.Stream.Closing
import IptvProxy.Stream.Slow
import IptvProxy.Stream.Leaving
import IptvProxy.Registry.Refresh
import IptvProxy.Vpn.OneTunnel
import IptvProxy.Vpn.Refused
import IptvProxy.Xtream.Routes
import IptvProxy.Xtream.Accounts
import IptvProxy.Xtream.Emitted
import IptvProxy.Xtream.Leaks
import IptvProxy.Catalog.Request
import IptvProxy.Catalog.Rehydrate
import IptvProxy.Catchup.SameArchive
import IptvProxy.Catchup.Negotiation
import IptvProxy.Account.Password
import IptvProxy.Users.Update
import IptvProxy.Users.Restart
import IptvProxy.Routing.Agreement
import IptvProxy.Artwork.Guard
import IptvProxy.Media.Exact
import IptvProxy.Vpn.Config
import IptvProxy.Vpn.Polls
import IptvProxy.Cache.Refill
import IptvProxy.Cache.Listing
import IptvProxy.Catalog.Growth
import IptvProxy.Catalog.Body
import IptvProxy.Metadata.Artwork
import IptvProxy.Metadata.Pipeline
import IptvProxy.Media.Playlist
import IptvProxy.Media.Transparent
import IptvProxy.Media.M3u
import IptvProxy.Account.RateLimit
import IptvProxy.Users.Formats
import IptvProxy.Users.ProviderUpdate
import IptvProxy.Catchup.Replay
import IptvProxy.Vpn.Stop
import IptvProxy.Vpn.Restart
import IptvProxy.Stream.Playlist
import IptvProxy.Media.Logged
import IptvProxy.Media.LiveKey
import IptvProxy.Logs.Sanitize
import IptvProxy.Metadata.Replacement
import IptvProxy.Users.StoredRoutes
import IptvProxy.Cache.Migration
import IptvProxy.Cache.Lifetime
import IptvProxy.Metadata.Personalize
import IptvProxy.Vpn.Wireguard
import IptvProxy.Vpn.Bypass
import IptvProxy.Logs.Live
import IptvProxy.Cache.Written
import IptvProxy.Vpn.Gate
import IptvProxy.Users.Startup
import IptvProxy.Catalog.Cached
