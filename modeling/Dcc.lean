import Dcc.Basic
import Dcc.Lib.Reach
import Dcc.Lib.Chain
import Dcc.Lib.Buckets
import Dcc.Lib.WriteOrder
import Dcc.Json.Lexical
import Dcc.Json.Dom
import Dcc.Json.Skip
import Dcc.Json.Agreement
import Dcc.Json.Utf8
import Dcc.Json.Grammar
import Dcc.Json.Parse
import Dcc.Json.Numbers
import Dcc.Json.Strings
import Dcc.Json.Exact
import Dcc.Rest.RateLimit
import Dcc.Rest.SharedBucket
import Dcc.Rest.Firewall
import Dcc.Rest.Request
import Dcc.Rest.Resource
import Dcc.Rest.ResourceAccounting
import Dcc.Rest.AsyncQueue
import Dcc.Rest.AsyncLists
import Dcc.Rest.AsyncActive
import Dcc.Rest.AsyncDrain
import Dcc.Rest.AsyncSystem
import Dcc.Rest.AsyncPlaces
import Dcc.Rest.AsyncDelivery
import Dcc.Rest.AsyncRuns
import Dcc.Rest.AsyncProgress
import Dcc.Rest.BucketSlots
import Dcc.Rest.LimitHeld
import Dcc.Rest.Dispatch
import Dcc.Cache.Table
import Dcc.Cache.EntityCache
import Dcc.Cache.Update
import Dcc.Cache.UpdateMerge
import Dcc.Session.ComponentSession
import Dcc.Voice.Ssrc
import Dcc.Voice.Reorder
import Dcc.Voice.ReorderOrder
import Dcc.Voice.Streams
import Dcc.Voice.SendQueue
import Dcc.Ws.Recv
import Dcc.Ws.Reassembly
import Dcc.Ws.Wire
import Dcc.Cache.UpdateMerge
import Dcc.Cache.UpdateValues
import Dcc.Lib.Decimal
import Dcc.Lib.Lines
import Dcc.Store.File
import Dcc.Store.Refine
import Dcc.Commands.Plan
import Dcc.Commands.Reconcile
import Dcc.Commands.Apply
import Dcc.Gateway.Session
import Dcc.Gateway.Heartbeat
import Dcc.Gateway.Runtime
import Dcc.Gateway.Resume
import Dcc.App.Guards
import Dcc.App.Listener
import Dcc.Lib.Stacks
import Dcc.App.Dispatch
import Dcc.App.Lifecycle
import Dcc.Json.Compact
import Dcc.Json.Pieces
import Dcc.Commands.Payload
import Dcc.Commands.OptionsMirrored
import Dcc.Commands.Snapshot
import Dcc.Commands.Idempotent
import Dcc.Flow.Registry
import Dcc.Flow.Duplicates
import Dcc.Interactions.Replay
import Dcc.Cluster.Identify
import Dcc.Replay.Log
import Dcc.Replay.Scan
import Dcc.Replay.RoundTrip
import Dcc.HotReload.Worker
import Dcc.Rest.Informative
import Dcc.HotReload.OneWorker
import Dcc.HotReload.Pipe
import Dcc.HotReload.Pairing
import Dcc.Flow.Queue
import Dcc.Flow.QueueOrder
import Dcc.Flow.QueueDelivery
import Dcc.Cache.Renumber
import Dcc.Voice.MediaView
import Dcc.Voice.Mixer
import Dcc.Voice.ReorderLoss
import Dcc.Voice.RtpRoundTrip
import Dcc.Ws.FrameRoundTrip
import Dcc.Ws.HeaderText
import Dcc.Ws.Handshake
import Dcc.Json.Decoding
import Dcc.Json.Marks
import Dcc.Session.Import
import Dcc.Session.RoundTrip
import Dcc.Rest.TakeOrder
import Dcc.Rest.StartOrder
import Dcc.Json.Snowflake
import Dcc.Http.Chunked
import Dcc.Http.Response
import Dcc.Json.GatewayKey
import Dcc.Rest.RouteKey
import Dcc.Rest.RouteSecrets
import Dcc.Json.OptionTree
import Dcc.Json.OptionsStored
import Dcc.App.Cooldown
import Dcc.Interactions.HeaderBlock
import Dcc.Interactions.ReadRequest
import Dcc.HotReload.Transfer
import Dcc.Replay.Payload
import Dcc.Rest.Buffer
import Dcc.Session.Export
import Dcc.Lib.SplitWord
import Dcc.Rest.Multipart
import Dcc.Flow.Budget
import Dcc.Flow.BudgetHeld
import Dcc.Components.Builder
import Dcc.Components.Validate
import Dcc.Components.Sound
import Dcc.Components.Accepted
import Dcc.Components.Serialize
import Dcc.Components.Writes
import Dcc.Components.Faithful
import Dcc.App.Policies
import Dcc.App.Schedules
import Dcc.App.EnvNumbers
import Dcc.App.Dotenv
import Dcc.Events.Waiters
import Dcc.Events.Policies
import Dcc.Events.ListenerOrder
import Dcc.App.FilteredWaits
import Dcc.App.FirstMatch
import Dcc.Lib.Base64
import Dcc.Messages.Utf8Scalars
import Dcc.Messages.Waveform
import Dcc.Messages.Links
import Dcc.Gateway.PayloadText
import Dcc.Rest.Query
import Dcc.Store.ManagedMessage
import Dcc.Cluster.Supervisor
