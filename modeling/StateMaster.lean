import StateMaster.Engine.Legality
import StateMaster.Engine.Redefinition
import StateMaster.Engine.Linearizability
import StateMaster.Engine.Idempotency
import StateMaster.Engine.Isolation
import StateMaster.Framework.Scan
import StateMaster.Storage.Outbox
import StateMaster.Storage.Registry
import StateMaster.Engine.Outbox
import StateMaster.Engine.Effects
import StateMaster.Engine.Dispatch
import StateMaster.Engine.Catchup
import StateMaster.Engine.Delivery
import StateMaster.Framework.MessagePack
import StateMaster.Proto.Frame
import StateMaster.Proto.Messages
import StateMaster.Sdk.Client
import StateMaster.Wire.Replies
import StateMaster.Wire.LongHistory
import StateMaster.Wire.Rejections
import StateMaster.Wire.Session
import StateMaster.Wire.Handshake
import StateMaster.Wire.Subscriptions
import StateMaster.Engine.Dispatcher
import StateMaster.Engine.History
import StateMaster.Engine.Commute
import StateMaster.Engine.ReadFaults
import StateMaster.Engine.EffectOrder
import StateMaster.Wire.Forwarding
import StateMaster.Wire.Resubscription
import StateMaster.Wire.Brackets
import StateMaster.Sdk.Connection
import StateMaster.Sdk.Correlation
import StateMaster.Sdk.Disconnection
import StateMaster.Core.Builder
import StateMaster.Core.RuleOrder
import StateMaster.Framework.BoundedScan
import StateMaster.Storage.Drain
import StateMaster.Storage.Versions
import StateMaster.Engine.StateQuery
import StateMaster.Sdk.FailedSubscribe
import StateMaster.Framework.JsonText
import StateMaster.Smash.Command
import StateMaster.Smash.Define
import StateMaster.Engine.Restart
import StateMaster.Engine.Follower
import StateMaster.Engine.Wakeup
import StateMaster.Engine.CompareAndSet
import StateMaster.Engine.Backlog
import StateMaster.Framework.Record
import StateMaster.Proto.RoundTrip
import StateMaster.Sdk.Retry
import StateMaster.Wire.Changes
import StateMaster.Sdk.EndToEnd
