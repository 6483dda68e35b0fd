import RelayPubsub.Lib.Text
import RelayPubsub.Lib.Machine
import RelayPubsub.Lib.Trace
import RelayPubsub.Backend
import RelayPubsub.Memory.Resources
import RelayPubsub.Memory.Exec
import RelayPubsub.Json
import RelayPubsub.Filter
import RelayPubsub.Memory.Frame
import RelayPubsub.Memory.Turn
import RelayPubsub.Memory.Order
import RelayPubsub.Memory.Refine
import RelayPubsub.Memory.PullHistory
import RelayPubsub.Memory.History
import RelayPubsub.Memory.Retain
import RelayPubsub.Memory.Lease
import RelayPubsub.Memory.Keys
import RelayPubsub.Memory.Bounds
import RelayPubsub.Memory.ExactlyOnce
import RelayPubsub.Memory.AckIds
import RelayPubsub.Auth
import RelayPubsub.Lib.Numeral
import RelayPubsub.Rest.Decode
import RelayPubsub.Rest.Dispatch
import RelayPubsub.Rest.Tenant
import RelayPubsub.Rest.Url
import RelayPubsub.Grpc.Proto
import RelayPubsub.Memory.Listing
import RelayPubsub.Grpc.Service
import RelayPubsub.Grpc.Tenant
import RelayPubsub.Grpc.Stream
import RelayPubsub.Memory.Durable
import RelayPubsub.Lib.Firsts
import RelayPubsub.Memory.Dedup
import RelayPubsub.Lib.Utf8
import RelayPubsub.RelayEvents.Publish
import RelayPubsub.RelayEvents.Key
import RelayPubsub.RelayEvents.Forward
import RelayPubsub.ActionGateway.Gateway
import RelayPubsub.ActionGateway.Run
import RelayPubsub.ActionGateway.Once
import RelayPubsub.ActionGateway.Accepted
import RelayPubsub.Lib.Unwinding
import RelayPubsub.Memory.Hidden
import RelayPubsub.Memory.Isolate
import RelayPubsub.Isolation
import RelayPubsub.Filter.Render
import RelayPubsub.Filter.Fuel
import RelayPubsub.Filter.Compose
import RelayPubsub.Memory.Anchored
import RelayPubsub.Memory.Batch
import RelayPubsub.Memory.Independent
import RelayPubsub.Memory.Drain
import RelayPubsub.Memory.Specs
import RelayPubsub.Rest.Encode
import RelayPubsub.Grpc.Encode
import RelayPubsub.Memory.Expiry
import RelayPubsub.Memory.Visits
import RelayPubsub.Memory.Attempts
import RelayPubsub.Memory.Admission
import RelayPubsub.Lib.Rank
import RelayPubsub.Memory.Clock
import RelayPubsub.Memory.Mirror
import RelayPubsub.Memory.MirrorPull
import RelayPubsub.Memory.Joint
import RelayPubsub.Memory.Filtered
import RelayPubsub.Memory.Walk
import RelayPubsub.LogBuffer
import RelayPubsub.Memory.Inventory
import RelayPubsub.RelayEvents.Actions
import RelayPubsub.Memory.MessageIds
import RelayPubsub.RelayEvents.Ids
import RelayPubsub.Memory.Respected
import RelayPubsub.Memory.Backoff
import RelayPubsub.Memory.SeekTime
import RelayPubsub.HttpRelay
import RelayPubsub.Memory.Mask
import RelayPubsub.Wire
import RelayPubsub.Memory.Accounted
import RelayPubsub.Memory.Origin
import RelayPubsub.Lib.Format
import RelayPubsub.Serde
import RelayPubsub.Memory.Document
import RelayPubsub.Memory.Restart
import RelayPubsub.Memory.Liveness
import RelayPubsub.Lib.Broker
import RelayPubsub.Memory.Broker
import RelayPubsub.Push.Dispatcher
import RelayPubsub.Push.Accepted
import RelayPubsub.RelayEvents.Backend
import RelayPubsub.Authenticator
import RelayPubsub.Memory.LeftAlone
import RelayPubsub.RelayEvents.Startup
import RelayPubsub.ActionGateway.Owed
import RelayPubsub.Memory.Directory
import RelayPubsub.Memory.ControlPlane
import RelayPubsub.HttpRelay.Run
import RelayPubsub.Grpc.Served
import RelayPubsub.Memory.Untouched
import RelayPubsub.Rest.Admin
import RelayPubsub.Delivered
