import JsonRpcBridge.Interleaving.Basic
import JsonRpcBridge.Assoc
import JsonRpcBridge.Bytes
import JsonRpcBridge.Json
import JsonRpcBridge.Config
import JsonRpcBridge.ErrorMap
import JsonRpcBridge.Sha256
import JsonRpcBridge.Discovery.Model
import JsonRpcBridge.Discovery.Revalidation
import JsonRpcBridge.Upstream.Adds
import JsonRpcBridge.Upstream.Lifecycle
import JsonRpcBridge.Upstream.Recycling
import JsonRpcBridge.Upstream.Rebinding
import JsonRpcBridge.Subscriptions.Events
import JsonRpcBridge.Subscriptions.Owners
import JsonRpcBridge.Subscriptions.LastWord
import JsonRpcBridge.Subscriptions.Notices
import JsonRpcBridge.Subscriptions.Acks
import JsonRpcBridge.Server.Gate
import JsonRpcBridge.Dispatcher.Rest
import JsonRpcBridge.Dispatcher.Ids
import JsonRpcBridge.Discovery.Advertised
import JsonRpcBridge.Upstream.Binding
import JsonRpcBridge.Docs.Text
import JsonRpcBridge.Docs.Common
import JsonRpcBridge.Discovery.Clean
import JsonRpcBridge.Dispatcher.Serialise
import JsonRpcBridge.Dispatcher.Batch
import JsonRpcBridge.Dispatcher.BatchLedger
import JsonRpcBridge.Server.Table
import JsonRpcBridge.Server.Bounds
import JsonRpcBridge.Server.Reassembly
import JsonRpcBridge.Server.Outbound
import JsonRpcBridge.Docs.Params
import JsonRpcBridge.Discovery.WellFormed
import JsonRpcBridge.Docs.AsyncApi
import JsonRpcBridge.Docs.OpenApi
import JsonRpcBridge.Pointer
import JsonRpcBridge.Docs.Refs
import JsonRpcBridge.Docs.Resolve
import JsonRpcBridge.Docs.AsyncRefs
import JsonRpcBridge.Members
import JsonRpcBridge.Docs.Surface
import JsonRpcBridge.Docs.Apart
import JsonRpcBridge.Compact
import JsonRpcBridge.Docs.Converge
import JsonRpcBridge.Config.Meaning
import JsonRpcBridge.Discovery.Consistency
import JsonRpcBridge.Discovery.Offline
import JsonRpcBridge.Server.Address
import JsonRpcBridge.Discovery.Backoff
import JsonRpcBridge.Discovery.Freshness
import JsonRpcBridge.Discovery.Immediate
import JsonRpcBridge.Discovery.Policies
import JsonRpcBridge.Core.InFlight
import JsonRpcBridge.Dispatcher.Subscribes
import JsonRpcBridge.Core.Answers
import JsonRpcBridge.Server.Peers
import JsonRpcBridge.Docs.Validators
import JsonRpcBridge.Docs.Summary
import JsonRpcBridge.Digest
import JsonRpcBridge.Scheduler.Timers
import JsonRpcBridge.Docs.Description
import JsonRpcBridge.Docs.Adequacy
import JsonRpcBridge.Upstream.Emissions
import JsonRpcBridge.Subscriptions.Generations
import JsonRpcBridge.Pump.Wakeups
import JsonRpcBridge.Pump.Staff
import JsonRpcBridge.Pump.Settles
import JsonRpcBridge.Dispatcher.Pooled
import JsonRpcBridge.Dispatcher.Settles
import JsonRpcBridge.Server.Wakeups
import JsonRpcBridge.Server.Linger
import JsonRpcBridge.Server.Posts
import JsonRpcBridge.DocsCli.Served
import JsonRpcBridge.Upstream.Survivors
import JsonRpcBridge.Upstream.Clearing
import JsonRpcBridge.Discovery.Convergence
import JsonRpcBridge.Discovery.Effort
import JsonRpcBridge.Scheduler.Sleep
