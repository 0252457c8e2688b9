import LayerCast.Json.Printer
import LayerCast.Settings.Builder
import LayerCast.Settings.Text
import LayerCast.Content.ManifestText
import LayerCast.Transfer.Pool
import LayerCast.Playback.Buffer
import LayerCast.Playback.Holdings
import LayerCast.Playback.Report
import LayerCast.Playback.Journal
import LayerCast.Policy.Basic
import LayerCast.Playback.Player
import LayerCast.Network.Channel
import LayerCast.Network.ProducerText
import LayerCast.Simulation.Playback
import LayerCast.Simulation.Listener
import LayerCast.Proofs.Transfer.ChunkTable
import LayerCast.Proofs.Transfer.Handlers
import LayerCast.Proofs.Transfer.Outcome
import LayerCast.Proofs.Transfer.Chunking
import LayerCast.Proofs.Transfer.Books
import LayerCast.Proofs.Transfer.Ledger
import LayerCast.Proofs.Transfer.Completion
import LayerCast.Proofs.Pool.Settled
import LayerCast.Proofs.Pool.Turn
import LayerCast.Proofs.Pool.Conservation
import LayerCast.Proofs.Pool.BatchResult
import LayerCast.Proofs.Pool.BatchEnd
import LayerCast.Proofs.Content.Segments
import LayerCast.Proofs.Content.Names
import LayerCast.Proofs.Content.Addressing
import LayerCast.Proofs.Transfer.TableHistory
import LayerCast.Proofs.Arith.Rounding
import LayerCast.Proofs.Playback.Playout
import LayerCast.Proofs.Policy.Choice
import LayerCast.Proofs.Policy.InStep
import LayerCast.Proofs.Playback.Course
import LayerCast.Proofs.Playback.Run
import LayerCast.Proofs.Playback.Gapless
import LayerCast.Proofs.Simulation.Replay
import LayerCast.Proofs.Transfer.Clockwork
import LayerCast.Proofs.Transfer.Calls
import LayerCast.Proofs.Playback.Life
import LayerCast.Proofs.Playback.Stock
import LayerCast.Proofs.Playback.Pending
import LayerCast.Proofs.Policy.Nature
import LayerCast.Proofs.Playback.Changes
import LayerCast.Proofs.Playback.Terms
import LayerCast.Proofs.Playback.Restart
import LayerCast.Proofs.Policy.Depth
import LayerCast.Proofs.Playback.Reserve
import LayerCast.Proofs.Playback.Progress
import LayerCast.Proofs.Playback.Stuck
import LayerCast.Proofs.Transfer.Deeds
import LayerCast.Proofs.Transfer.Diary
import LayerCast.Proofs.Transfer.Events
import LayerCast.Proofs.Transfer.Bytes
import LayerCast.Proofs.Transfer.Requests
import LayerCast.Proofs.Transfer.Shortfall
import LayerCast.Proofs.Pool.Salvage
import LayerCast.Proofs.Playback.Occupancy
import LayerCast.Proofs.Policy.Decision
import LayerCast.Proofs.Playback.Fresh
import LayerCast.Proofs.Playback.Consumption
import LayerCast.Proofs.Transfer.Retransmissions
import LayerCast.Proofs.Transfer.Fates
import LayerCast.Proofs.Playback.Dealings
import LayerCast.Proofs.Transfer.RoundTrip
import LayerCast.Proofs.Transfer.Window
import LayerCast.Proofs.Transfer.Pace
import LayerCast.Proofs.Transfer.WindowChanges
import LayerCast.Proofs.Transfer.Samples
import LayerCast.Proofs.Policy.Walk
import LayerCast.Proofs.Policy.Estimate
import LayerCast.Proofs.Network.Chunks
import LayerCast.Proofs.Pool.Handover
import LayerCast.Proofs.Arith.Significands
import LayerCast.Proofs.Arith.Doubles
import LayerCast.Proofs.Policy.Slope
import LayerCast.Proofs.Playback.Decisions
