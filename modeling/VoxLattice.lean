import VoxLattice.Lib.Lts
import VoxLattice.Lib.Queue
import VoxLattice.Lib.Intervals
import VoxLattice.Server.Rounds
import VoxLattice.Server.Wakeup
import VoxLattice.Server.Capacity
import VoxLattice.Server.Streams
import VoxLattice.Server.Rechunking
import VoxLattice.Server.Frames
import VoxLattice.Server.Intake
import VoxLattice.Server.Backlog
import VoxLattice.Server.Transcript
import VoxLattice.Server.Accounting
import VoxLattice.Server.Pipeline
import VoxLattice.Server.Refinement
import VoxLattice.Server.Prompt
import VoxLattice.Server.Flush
import VoxLattice.Server.Liveness
import VoxLattice.Server.Changes
import VoxLattice.Server.Admission
import VoxLattice.Server.Gauges
import VoxLattice.Server.Bypass
import VoxLattice.Server.Effects
import VoxLattice.Server.InputBound
import VoxLattice.Server.Terminal
import VoxLattice.Server.Isolation
import VoxLattice.Server.Sources
import VoxLattice.Plugin.Alignment
import VoxLattice.Plugin.Requests
import VoxLattice.Plugin.Contract
import VoxLattice.Plugin.Pending
import VoxLattice.Plugin.Cursors
import VoxLattice.Plugin.Latency
import VoxLattice.Plugin.Places
import VoxLattice.Plugin.Callbacks
import VoxLattice.Deployment.Calls
import VoxLattice.Deployment.Agreement
import VoxLattice.Server.Conversion
import VoxLattice.Server.Chunking
import VoxLattice.Plugin.Segments
import VoxLattice.Lib.Tensors
import VoxLattice.Server.Caches
import VoxLattice.Plugin.Limits
import VoxLattice.Plugin.Loop
import VoxLattice.Plugin.Responses
import VoxLattice.Plugin.Backoff
import VoxLattice.Server.Atomicity
import VoxLattice.Lib.Acceptors
import VoxLattice.Server.Slicing
import VoxLattice.Server.Offsets
import VoxLattice.Server.Grammar
import VoxLattice.Server.Reading
import VoxLattice.Server.Script
import VoxLattice.Benchmarks.Eligible
import VoxLattice.Lib.Mealy
import VoxLattice.Lib.Fourier
import VoxLattice.Lib.Frames
import VoxLattice.Upstream.Torch
import VoxLattice.Upstream.Transform
import VoxLattice.Upstream.Reconstruction
import VoxLattice.Upstream.Network
import VoxLattice.Upstream.Streaming
import VoxLattice.Upstream.Compression
import VoxLattice.Server.Model
import VoxLattice.Server.Serving
import VoxLattice.Upstream.Layers
import VoxLattice.Upstream.Folding
import VoxLattice.Lib.Timelines
import VoxLattice.Plugin.Excerpts
import VoxLattice.Server.Signal
import VoxLattice.Deployment.Enhancement
