import Hedra.Lib.Machine
import Hedra.Lib.Network
import Hedra.Lib.Tasks
import Hedra.Lib.Lines
import Hedra.Lib.Pull
import Hedra.Lib.Dict
import Hedra.Lib.ListIndex
import Hedra.Lib.LastWrite
import Hedra.Lib.Newest
import Hedra.Lib.BitField
import Hedra.Lib.Future
import Hedra.Lib.Frames
import Hedra.Lib.BigEndian
import Hedra.Lib.Trie
import Hedra.Lib.Ranges
import Hedra.Lib.Incremental
import Hedra.Lib.BitString
import Hedra.Lib.PrefixCode
import Hedra.Lib.PrefixInteger
import Hedra.Lib.Hpack
import Hedra.Lib.LruCache
import Hedra.Snowflake
import Hedra.Replication.Models
import Hedra.Replication.LogQueue
import Hedra.Replication.LogQueueSync
import Hedra.Replication.LogQueueRep
import Hedra.Replication.LogQueueEntries
import Hedra.Replication.LogQueueRedelivery
import Hedra.Replication.Controller
import Hedra.Replication.ControllerStep
import Hedra.Replication.Terms
import Hedra.Replication.Votes
import Hedra.Replication.Fencing
import Hedra.Replication.Leaders
import Hedra.Replication.Cluster
import Hedra.Replication.Elections
import Hedra.Replication.Durability
import Hedra.Replication.FailedNodes
import Hedra.Monitoring.Monitor
import Hedra.Monitoring.Gossip
import Hedra.Monitoring.Suspicion
import Hedra.Connection.Waiters
import Hedra.Connection.Tcp
import Hedra.Connection.Udp
import Hedra.Connection.Segments
import Hedra.Connection.Streams
import Hedra.Dns.Wire
import Hedra.Dns.Names
import Hedra.Dns.Record
import Hedra.Dns.Message
import Hedra.Dns.Cache
import Hedra.Dns.CacheRuns
import Hedra.Dns.Memoizer
import Hedra.Dns.RandomIds
import Hedra.Http2.Frame
import Hedra.Http2.FrameBuffer
import Hedra.Http2.Continuation
import Hedra.Http2.RoundTrip
import Hedra.Http2.Windows
import Hedra.Http2.Pipe
import Hedra.Http2.Body
import Hedra.Http2.Session
import Hedra.Http2.StreamIds
import Hedra.Http2.EndStream
import Hedra.Http2.FlowControl
import Hedra.Http2.SettingsAck
import Hedra.Http2.HuffmanTable
import Hedra.Http2.Huffman
import Hedra.Http2.HeaderTable
import Hedra.Http2.HeaderCodec
import Hedra.Http2.CodecAgreement
import Hedra.Http2.RequestHeaders
import Hedra.Http2.DeferredHeaders
import Hedra.Engines.ClientPool
import Hedra.Engines.BalancingSemaphore
import Hedra.Engines.Reader
import Hedra.Http3.Protocol
import Hedra.Http3.RequestStream
import Hedra.Http3.Views
import Hedra.Http3.Responses
import Hedra.Lib.Arrivals
import Hedra.RateLimiting.BaseLimiter
import Hedra.RateLimiting.LeakyBucket
import Hedra.RateLimiting.TokenBucket
import Hedra.RateLimiting.SlidingWindow
import Hedra.Middleware.CircuitBreaker
import Hedra.Lib.Dag
import Hedra.Graphs.Stages
import Hedra.Graphs.SetupCandidates
import Hedra.Lib.Merging
import Hedra.Graphs.Histories
import Hedra.Graphs.Analysis
import Hedra.Lib.Separated
import Hedra.Lib.Utf8
import Hedra.Connection.HttpMessage
import Hedra.Connection.HttpTransport
import Hedra.Lib.Filters
import Hedra.Connection.PendingResponses
import Hedra.Monitoring.Cleanup
import Hedra.Monitoring.Confirmations
import Hedra.Replication.Registration
import Hedra.Monitoring.HealthMultipliers
import Hedra.Replication.LogQueuePruning
import Hedra.Connection.HttpRouting
import Hedra.Lib.Numerals
import Hedra.Lib.HttpGrammar
import Hedra.Engines.ResponseBody
import Hedra.Engines.RequestEncoding
import Hedra.Data.Serializers
import Hedra.Connection.ResponseHeaders
import Hedra.Connection.Framing
import Hedra.RateLimiting.TokenBucketProgress
import Hedra.Dns.AnyQueries
import Hedra.Lib.Walks
import Hedra.Dns.NameWalks
import Hedra.Dns.NameRoundTrip
import Hedra.Dns.SizeLimits
import Hedra.Lib.Views
import Hedra.Connection.RequestViews
import Hedra.Lib.HalfEven
import Hedra.Lib.Binary64
import Hedra.Lib.Scan
import Hedra.Env.Parts
import Hedra.Env.MemoryParser
import Hedra.Env.TimeParser
import Hedra.Middleware.Cors
import Hedra.Connection.HttpPool
import Hedra.Connection.HttpPoolRuns
import Hedra.Lib.Chase
import Hedra.Dns.Lookups
import Hedra.Dns.CnameChains
import Hedra.Dns.NameServers
import Hedra.Lib.Captures
import Hedra.Dns.Entries
import Hedra.Http2.Padding
import Hedra.Engines.ReadUntil
import Hedra.Graphs.Provisioning
import Hedra.Lib.Packing
import Hedra.Graphs.PriorityBatches
import Hedra.Graphs.PriorityPacking
import Hedra.Graphs.Retries
import Hedra.Engines.Redirects
import Hedra.Graphs.Delivery
import Hedra.Graphs.DeliveryRuns
import Hedra.Lib.Hexadecimal
import Hedra.Engines.Grpc
import Hedra.Graphs.BatchedSemaphore
import Hedra.Lib.Shares
import Hedra.Graphs.WorkPartitions
import Hedra.Graphs.Optimization
import Hedra.Experiments.Weights
import Hedra.Lib.Smoothing
import Hedra.Experiments.Distributions
import Hedra.Graphs.PointOptimizer
import Hedra.Personas.Sessions
import Hedra.Personas.Ramped
import Hedra.Personas.ConstantArrival
import Hedra.Personas.ApproximateDistribution
import Hedra.Lib.OnesComplement
import Hedra.Lib.Outcomes
import Hedra.Engines.Ping
import Hedra.Lib.Moments
import Hedra.Lib.Medians
import Hedra.Reporting.Stats
import Hedra.Reporting.StreamedCounts
import Hedra.Reporting.StageTimings
import Hedra.Lib.Slices
import Hedra.Tools.AsyncList
import Hedra.Engines.BackPressure
import Hedra.Monitoring.ResourceMonitor
import Hedra.Experiments.Actions
import Hedra.Lib.Settling
import Hedra.Experiments.MutationRuns
import Hedra.Lib.Generations
import Hedra.Graphs.Assembly
import Hedra.Graphs.Running
import Hedra.Hooks.Dispatch
import Hedra.Middleware.Wrappers
import Hedra.Middleware.Nesting
import Hedra.Lib.Keyed
import Hedra.RateLimiting.Limiters
import Hedra.Connection.HttpExchange
import Hedra.Lib.Rotation
import Hedra.Personas.Dealing
import Hedra.Lib.Layers
import Hedra.Hooks.EventGraph
