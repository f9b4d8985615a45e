import GlanceVault.Core.EventStream
import GlanceVault.Core.Table
import GlanceVault.Core.Expiring
import GlanceVault.Core.Feed
import GlanceVault.Core.FixedWindows
import GlanceVault.Core.Groups
import GlanceVault.Core.Prog
import GlanceVault.Core.Guarantee
import GlanceVault.Core.Line
import GlanceVault.Core.Paging
import GlanceVault.Core.Tx
import GlanceVault.Core.Renaming
import GlanceVault.Core.Retry
import GlanceVault.Core.Routing
import GlanceVault.Core.Run
import GlanceVault.Core.Slices
import GlanceVault.Core.Views
import GlanceVault.L1Encoding.Js
import GlanceVault.L1Encoding.Base64
import GlanceVault.L1Encoding.Doubles
import GlanceVault.L1Encoding.Cuts
import GlanceVault.L1Encoding.Iso
import GlanceVault.L1Encoding.IsoOrder
import GlanceVault.L1Encoding.JsonText
import GlanceVault.L1Encoding.Uri
import GlanceVault.L2Storage.Schema
import GlanceVault.L2Storage.SyncStore
import GlanceVault.L2Storage.IntentStore
import GlanceVault.L2Storage.BlobMeta
import GlanceVault.L2Storage.Registry
import GlanceVault.L2Storage.SeqLine
import GlanceVault.L2Storage.Parts
import GlanceVault.L2Storage.Accounts
import GlanceVault.L2Storage.Aggregates
import GlanceVault.L2Storage.Apart
import GlanceVault.L2Storage.Migrations
import GlanceVault.L2Storage.Boots
import GlanceVault.L2Storage.Drain
import GlanceVault.L2Storage.ZeroPoint
import GlanceVault.L2Storage.CaughtUp
import GlanceVault.L2Storage.Delivery
import GlanceVault.L2Storage.DiskBlobStore
import GlanceVault.L2Storage.Media
import GlanceVault.L2Storage.Reservation
import GlanceVault.L2Storage.Drafts
import GlanceVault.L2Storage.Lifecycle
import GlanceVault.L2Storage.Reclaim
import GlanceVault.L2Storage.Usage
import GlanceVault.L2Storage.Resealing
import GlanceVault.L2Storage.Retry
import GlanceVault.L2Storage.ShortReads
import GlanceVault.L2Storage.Vault
import GlanceVault.L2Storage.Versions
import GlanceVault.L2Storage.Volume
import GlanceVault.L3Http.Hub
import GlanceVault.L3Http.Quotas
import GlanceVault.L3Http.Http
import GlanceVault.L3Http.Fields
import GlanceVault.L3Http.Scope
import GlanceVault.L3Http.AdminRoutes
import GlanceVault.L3Http.BlobRoutes
import GlanceVault.L3Http.SyncRoutes
import GlanceVault.L3Http.EventRoutes
import GlanceVault.L3Http.IntentRoutes
import GlanceVault.L3Http.Router
import GlanceVault.L3Http.Sweeps
import GlanceVault.L3Http.Frames
import GlanceVault.L3Http.MediaRoutes
import GlanceVault.L3Http.Tenants
import GlanceVault.L3Http.Administration
import GlanceVault.L3Http.Endpoints
import GlanceVault.L3Http.RateLimit
import GlanceVault.L3Http.HubRegistry
import GlanceVault.L3Http.UsageRoute
import GlanceVault.L3Http.App
import GlanceVault.L3Http.Erasure
import GlanceVault.L3Http.Operations
import GlanceVault.L3Http.Refusals
import GlanceVault.L3Http.Transparency
import GlanceVault.L3Http.WholeBatches
import GlanceVault.L3Http.Deeds
import GlanceVault.L3Http.Durations
import GlanceVault.L3Http.EntityPaths
import GlanceVault.L3Http.Envelopes
import GlanceVault.L3Http.Pages
import GlanceVault.L3Http.EventFrames
import GlanceVault.L3Http.Expiry
import GlanceVault.L3Http.FailedConnects
import GlanceVault.L3Http.Locality
import GlanceVault.L3Http.Nudges
import GlanceVault.L3Http.Ranges
import GlanceVault.L3Http.NumericParams
import GlanceVault.L3Http.Reassembly
import GlanceVault.L3Http.Redelete
import GlanceVault.L3Http.RefCounts
import GlanceVault.L3Http.RequestLog
import GlanceVault.L3Http.Resealing
import GlanceVault.L3Http.Resend
import GlanceVault.L3Http.Reservations
import GlanceVault.L3Http.Revocation
import GlanceVault.L3Http.Teardown
import GlanceVault.L3Http.Views
import GlanceVault.L3Http.Volume
import GlanceVault.L4System.System
import GlanceVault.L4System.Operations
import GlanceVault.L4System.Possession
import GlanceVault.L4System.Finality
import GlanceVault.L4System.AccountKeys
import GlanceVault.L4System.Churn
import GlanceVault.L4System.Envelopes
import GlanceVault.L4System.Survival
import GlanceVault.L4System.Noninterference
import GlanceVault.L4System.Reservations
import GlanceVault.L4System.Reassembly
import GlanceVault.L4System.Presence
import GlanceVault.L4System.Reclaim
import GlanceVault.L4System.Erasure
import GlanceVault.L4System.Nudges
import GlanceVault.L4System.HubSteps
import GlanceVault.L4System.Versions
import GlanceVault.L4System.Vaults
import GlanceVault.L4System.Followers
import GlanceVault.L4System.Heartbeats
import GlanceVault.L4System.Honest
import GlanceVault.L4System.IntentCap
import GlanceVault.L4System.LiveStreams
import GlanceVault.L4System.Memory
import GlanceVault.L4System.Modes
import GlanceVault.L4System.Perimeter
import GlanceVault.L4System.References
import GlanceVault.L4System.Resealing
import GlanceVault.L4System.RowCap
import GlanceVault.L4System.Volume
import GlanceVault.L4System.Wire
