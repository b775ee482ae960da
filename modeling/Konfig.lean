import Konfig.Lib.Machine
import Konfig.Lib.Proc
import Konfig.Lib.WatchMirror
import Konfig.Types
import Konfig.Policy.Acl
import Konfig.Policy.Quota
import Konfig.Policy.Sync
import Konfig.Policy.Schema
import Konfig.Apply
import Konfig.ApplyRace
import Konfig.Lib.Deque
import Konfig.Subscribe.Filter
import Konfig.Subscribe.Replay
import Konfig.Subscribe.Session
import Konfig.Subscribe.Resume
import Konfig.Subscribe.Order
import Konfig.Subscribe.Snapshot
import Konfig.Consumer.Stream
import Konfig.Consumer.CatchUp
import Konfig.Subscribe.Namespaces
import Konfig.Subscribe.Served
import Konfig.Policy.Subscribers
import Konfig.Policy.SubscriberGauge
import Konfig.Lib.Base64
import Konfig.Secrets.Types
import Konfig.Secrets.Apply
import Konfig.Lib.Emitter
import Konfig.Secrets.Watch
import Konfig.Secrets.Session
import Konfig.Secrets.Delivery
import Konfig.Subscribe.Channel
import Konfig.Subscribe.Backpressure
import Konfig.Cache
import Konfig.Service.Drain
import Konfig.Lib.TokenBucket
import Konfig.Policy.Rate
import Konfig.Service.Rpc
import Konfig.Service.Targets
import Konfig.Service.Scope
import Konfig.Service.Gates
import Konfig.Service.WriteRate
import Konfig.Lib.Exchange
import Konfig.Exchanges
import Konfig.Batch
import Konfig.Preview
import Konfig.Service.BatchAudit
import Konfig.Import
import Konfig.Writers
import Konfig.Lib.Mailboxes
import Konfig.Subscribe.Shards
import Konfig.Subscribe.Coalesce
import Konfig.Secrets.Resume
import Konfig.Lib.WatchConnection
import Konfig.Lib.FeedStore
import Konfig.Policy.Noninterference
import Konfig.Watcher
import Konfig.Consumer.Outage
import Konfig.Secrets.Fleet
import Konfig.Staleness
import Konfig.Service.Health
import Konfig.Service.AuditLog
import Konfig.CowCache
import Konfig.Policy.ReorderedClocks
import Konfig.Relist
import Konfig.Lib.Recency
import Konfig.TenantCache
import Konfig.Policy.QuotaMerge
import Konfig.VersionGate
import Konfig.Subscribe.Grace
import Konfig.Lib.Separated
import Konfig.Subscribe.Selector
import Konfig.Lib.Retry
import Konfig.PatchLoops
import Konfig.Consumer.ReadModel
import Konfig.Lib.Decimal
import Konfig.ValueParse
import Konfig.ConfigmapWatcher
import Konfig.Service.RequestId
import Konfig.Flamediff.Flamebearer
import Konfig.Flamediff.Gate
import Konfig.Flamediff.Forest
import Konfig.Flamediff.Pprof
import Konfig.Flamediff.Faithful
import Konfig.Gateway.JsonArray
import Konfig.Gateway.Sse
import Konfig.Subscribe.Malformed
import Konfig.Flamediff.Checked
import Konfig.Flamediff.CheckedFrames
import Konfig.Flamediff.CheckedPprof
import Konfig.Flamediff.Main
import Konfig.Gateway.Auth
import Konfig.Lib.RoundRobin
import Konfig.Subscribe.Balance
import Konfig.TenantView
import Konfig.Etcd
import Konfig.Gateway.Dispatch
import Konfig.Gateway.Transcode
import Konfig.Consumer.Reconnect
import Konfig.Secrets.Writers
import Konfig.Lib.Compartments
import Konfig.Policy.Isolation
import Konfig.Provenance
import Konfig.FollowsStore
import Konfig.Secrets.FollowsStore
import Konfig.ReadYourWrites
import Konfig.Consumer.FollowsStore
