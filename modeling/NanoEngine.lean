import NanoEngine.Worker.HostSwap
import NanoEngine.Worker.Sample
import NanoEngine.Disagg.CacheLayout
import NanoEngine.Disagg.Coalesce
import NanoEngine.L3.Hits
import NanoEngine.Experts.Placement
import NanoEngine.Experts.Balance
import NanoEngine.Pipeline.Main
import NanoEngine.Pipeline.Repack
import NanoEngine.Mtp.Verify
import NanoEngine.Mtp.Choice
import NanoEngine.Prefill.BudgetMain
import NanoEngine.Queues.Decode
import NanoEngine.Streams.Bundle
import NanoEngine.Streams.Main
import NanoEngine.Cache.PoolRuns
import NanoEngine.Slots.Main
import NanoEngine.Failures.Admission
import NanoEngine.Failures.ColdPages
import NanoEngine.Failures.Release
import NanoEngine.Failures.Schedule
import NanoEngine.Cache.EnsureBlocks
import NanoEngine.Cache.Eviction
import NanoEngine.Engine.Pools
import NanoEngine.Engine.Rules
import NanoEngine.Router.Forward
import NanoEngine.Router.Sync
import NanoEngine.Router.Cluster
import NanoEngine.Server.Backend
import NanoEngine.Server.Handed
import NanoEngine.Server.Vision
import NanoEngine.Kimi.Render
import NanoEngine.Disagg.Metadata
import NanoEngine.Proto.Classify
import NanoEngine.Server.Detokenize
import NanoEngine.Server.Stops
import NanoEngine.Server.FrontEnd
import NanoEngine.Encoder.Slots
import NanoEngine.L3.Store
import NanoEngine.Worker.DecodeGraph
import NanoEngine.Kimi.Truncated
import NanoEngine.Experts.Generic
import NanoEngine.Server.Messages
import NanoEngine.HiSparse.Coherence
