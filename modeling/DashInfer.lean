import DashInfer.Cache.Runs
import DashInfer.Cache.GpuLayers
import DashInfer.Cache.CpuTasks
import DashInfer.Cache.SwapOut
import DashInfer.Cache.Invariant
import DashInfer.Cache.Evict
import DashInfer.Cache.Fill
import DashInfer.Cache.SwapIn
import DashInfer.Cache.RefFill
import DashInfer.Cache.Lookup
import DashInfer.Cache.Start
import DashInfer.Sync.Barrier
import DashInfer.Sync.InterProcess
import DashInfer.Cache.Release
import DashInfer.Cache.Insert
import DashInfer.Cache.Replay
import DashInfer.Cache.FillOrder
import DashInfer.Cache.Residency
import DashInfer.Cache.Reuse
import DashInfer.Model.Request
import DashInfer.Device.Allocator
import DashInfer.Device.Chunks
import DashInfer.Device.Bins
import DashInfer.Device.Links
import DashInfer.Device.Search
import DashInfer.Device.Extend
import DashInfer.Device.FreeRegions
import DashInfer.Device.Calls
import DashInfer.Device.Structure
import DashInfer.Device.Contract
import DashInfer.Lib.SwapRemove
import DashInfer.Serving.Model
import DashInfer.Serving.State
import DashInfer.Serving.Loop
import DashInfer.Serving.Run
import DashInfer.Serving.Standing
import DashInfer.Lib.Buffer
import DashInfer.Weight.Splitter
import DashInfer.Lib.Strips
import DashInfer.Weight.Plane
import DashInfer.Weight.Sharding
import DashInfer.Weight.Modes
import DashInfer.Weight.Reassembly
import DashInfer.Weight.NegativeGroup
import DashInfer.Weight.Stack
import DashInfer.Weight.BatchRows
import DashInfer.Weight.BatchWeights
import DashInfer.Decode.Context
import DashInfer.Decode.GenList
import DashInfer.Memory.Blocks
import DashInfer.Memory.Reuser
import DashInfer.Decode.Steps
import DashInfer.Decode.Bookkeeping
import DashInfer.Decode.Views
import DashInfer.Decode.Ranks
import DashInfer.Lib.Text
import DashInfer.Lib.Utf8
import DashInfer.WeightFile.Header
import DashInfer.WeightFile.Parse
import DashInfer.WeightFile.Loader
import DashInfer.WeightFile.Stream
import DashInfer.WeightFile.Written
import DashInfer.WeightFile.RoundTrip
import DashInfer.WeightFile.Mmap
import DashInfer.WeightFile.Saver
import DashInfer.Cache.Growth
import DashInfer.Service.ConfigMessage
import DashInfer.Service.Messages
import DashInfer.Service.Requests
import DashInfer.Weight.Swap
import DashInfer.Vision.HieWorker
import DashInfer.Vision.DeliveryStep
import DashInfer.Vision.MailStep
import DashInfer.Vision.WorkerLaw
import DashInfer.Vision.Request
import DashInfer.Vision.PromptOrder
import DashInfer.Vision.Resize
import DashInfer.Vision.Preprocess
import DashInfer.Vision.MediaKeys
import DashInfer.Lib.Threads
import DashInfer.Logits.Agreement
import DashInfer.Lora.Engine
import DashInfer.Lora.Choice
import DashInfer.Prefill.Chunks
import DashInfer.Prefill.OneShot
import DashInfer.Serving.Results
import DashInfer.Cache.CopyLoop
import DashInfer.Device.RegionSize
import DashInfer.Model.StopRequest
import DashInfer.Cache.DecoderMemory
import DashInfer.Cache.SwapStates
import DashInfer.Cache.FrameBalance
import DashInfer.Cache.FrameRuns
import DashInfer.Cache.HostBudget
import DashInfer.Sparse.EllRoundTrip
import DashInfer.Prefill.EmbeddingExact
import DashInfer.Logits.Ngram
import DashInfer.Lora.Slots
import DashInfer.Guard.Consistency
import DashInfer.Vision.Mrope
import DashInfer.Rotary.Positions
import DashInfer.Weight.Entries
import DashInfer.Lora.Split
import DashInfer.Vision.ResizeBounds
import DashInfer.Quant.Fp8Merge
import DashInfer.Quant.GptqValues
import DashInfer.Vision.MropeCoordinates
import DashInfer.Vision.PreparedTokens
import DashInfer.Memory.DenseData
import DashInfer.Weight.Handlers
import DashInfer.Vision.TruncateExact
import DashInfer.Vision.CacheLookup
import DashInfer.Vision.NewRequestLaw
import DashInfer.Guard.Md5Framing
import DashInfer.Lib.Lru
import DashInfer.Vision.VideoPairsLaw
import DashInfer.Vision.MergeVitsLaw
import DashInfer.Lora.ForwardLaw
import DashInfer.Serving.Transitions
import DashInfer.Serving.Promises
import DashInfer.Serving.QueueLife
import DashInfer.Serving.LoraUse
import DashInfer.Serving.Synchronization
import DashInfer.Serving.MemoryOut
import DashInfer.Tokenizer.Pieces
