import KeeplinSrv.Access.MoveBlocked
import KeeplinSrv.Access.Moves
import KeeplinSrv.Access.NoteCascade
import KeeplinSrv.Access.NoteList
import KeeplinSrv.Access.Outsiders
import KeeplinSrv.Access.Permissions
import KeeplinSrv.Access.PointInTime
import KeeplinSrv.Access.Rights
import KeeplinSrv.Access.Sharing
import KeeplinSrv.Access.Writers
import KeeplinSrv.Account.Credentials
import KeeplinSrv.Account.InFlight
import KeeplinSrv.Account.LockoutRuns
import KeeplinSrv.Account.Reset
import KeeplinSrv.AtRest.Export
import KeeplinSrv.AtRest.Reencrypt
import KeeplinSrv.AtRest.Store
import KeeplinSrv.Collab.ApplyOp
import KeeplinSrv.Collab.Clock
import KeeplinSrv.Collab.Compaction
import KeeplinSrv.Collab.Effects
import KeeplinSrv.Collab.Footprint
import KeeplinSrv.Collab.Format
import KeeplinSrv.Collab.Isolation
import KeeplinSrv.Collab.Limits
import KeeplinSrv.Collab.MoveOrder
import KeeplinSrv.Collab.OrderLines
import KeeplinSrv.Collab.Register
import KeeplinSrv.Collab.Replay
import KeeplinSrv.Collab.SameNote
import KeeplinSrv.Collab.Serial
import KeeplinSrv.Collab.Serializable
import KeeplinSrv.Collab.Transactions
import KeeplinSrv.Common.Budget
import KeeplinSrv.Common.Causal
import KeeplinSrv.Common.Except
import KeeplinSrv.Common.FinMap
import KeeplinSrv.Common.Interference
import KeeplinSrv.Common.Machine
import KeeplinSrv.Common.Pages
import KeeplinSrv.Common.Potential
import KeeplinSrv.Common.Prog
import KeeplinSrv.Common.Query
import KeeplinSrv.Common.SerialOrder
import KeeplinSrv.Common.TokenBucket
import KeeplinSrv.Common.Tournament
import KeeplinSrv.Common.Unwinding
import KeeplinSrv.Core
import KeeplinSrv.History.Forgery
import KeeplinSrv.History.Journal
import KeeplinSrv.History.Window
import KeeplinSrv.Lists.Cursor
import KeeplinSrv.Lists.Listing
import KeeplinSrv.Live.Bus
import KeeplinSrv.Live.BusOrder
import KeeplinSrv.Live.Granted
import KeeplinSrv.Live.Observer
import KeeplinSrv.Live.Once
import KeeplinSrv.Live.OneRoom
import KeeplinSrv.Live.Outbox
import KeeplinSrv.Live.PresenceRows
import KeeplinSrv.Live.Replica
import KeeplinSrv.Live.Registry
import KeeplinSrv.Live.Rooms
import KeeplinSrv.Live.Server
import KeeplinSrv.Live.Session
import KeeplinSrv.Live.Settle
import KeeplinSrv.Live.Shipping
import KeeplinSrv.Live.Siblings
import KeeplinSrv.Live.Steps
import KeeplinSrv.Live.Turns
import KeeplinSrv.Live.Visits
import KeeplinSrv.Projection.Converge
import KeeplinSrv.Projection.Effect
import KeeplinSrv.Projection.Entities
import KeeplinSrv.Projection.Foreign
import KeeplinSrv.Projection.Ingest
import KeeplinSrv.Projection.LifeCycle
import KeeplinSrv.Projection.Outstanding
import KeeplinSrv.Projection.Queue
import KeeplinSrv.Projection.Reconcile
import KeeplinSrv.Projection.ResourceSerial
import KeeplinSrv.Projection.Resources
import KeeplinSrv.Projection.Rows
import KeeplinSrv.Projection.TagSerial
import KeeplinSrv.Protocol
import KeeplinSrv.Quota.Limits
import KeeplinSrv.Quota.Requests
import KeeplinSrv.Quota.Spending
import KeeplinSrv.Quota.Transactions
import KeeplinSrv.RateLimit.Bound
import KeeplinSrv.RateLimit.Sweeps
import KeeplinSrv.Relay.CatchUp
import KeeplinSrv.Relay.Complete
import KeeplinSrv.Relay.Delivery
import KeeplinSrv.Relay.Hub
import KeeplinSrv.Relay.HubRefines
import KeeplinSrv.Relay.Journal
import KeeplinSrv.Relay.Machine
import KeeplinSrv.Relay.Retention
import KeeplinSrv.Store.Accounts
import KeeplinSrv.Store.Gc
import KeeplinSrv.Store.Notes
import KeeplinSrv.Store.Rows
