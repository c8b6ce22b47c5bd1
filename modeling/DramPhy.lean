import DramPhy.HalfRate.Phy
import DramPhy.Main
import DramPhy.Waveform.Text
import DramPhy.Proofs.BitSlipHistory
import DramPhy.Proofs.BitSlipRun
import DramPhy.Proofs.BitSlipChain
import DramPhy.Proofs.Command.SlotStream
import DramPhy.Proofs.Command.ArbiterRun
import DramPhy.Proofs.Command.Decision
import DramPhy.Proofs.Command.Exclusivity
import DramPhy.Proofs.Command.BusSlots
import DramPhy.Proofs.Command.Suppression
import DramPhy.Proofs.Command.Transparency
import DramPhy.Proofs.Command.SilentDrop
import DramPhy.Proofs.Command.DropRule
import DramPhy.Proofs.Command.BusAssembly
import DramPhy.Proofs.DelayLineHistory
import DramPhy.Proofs.DelayLineRun
import DramPhy.Proofs.Strobe.FrameHistory
import DramPhy.Proofs.Strobe.FramedRuns
import DramPhy.Proofs.Phy.Cycle
import DramPhy.Proofs.Timing.Borrowing
import DramPhy.Proofs.Timing.Access
import DramPhy.Proofs.Timing.ExactResolution
import DramPhy.Proofs.Timing.SignedTicks
import DramPhy.Proofs.Timing.AscendingTable
import DramPhy.Proofs.Timing.LatencySums
import DramPhy.Proofs.Phy.History
import DramPhy.Proofs.Phy.Run
import DramPhy.Proofs.Phy.WriteTiming
import DramPhy.Proofs.Controller.LaneScatter
import DramPhy.Proofs.Controller.LaneTransfer
import DramPhy.Proofs.Phy.ReadTiming
import DramPhy.Proofs.Phy.ReadDataFrame
import DramPhy.Proofs.Phy.CalibrationHistory
import DramPhy.Proofs.Phy.WriteLanes
import DramPhy.Proofs.Phy.Loopback
import DramPhy.Proofs.Phy.ByteIsolation
import DramPhy.Proofs.Pad.LaneWords
import DramPhy.Proofs.HalfRate.SerdesHistory
import DramPhy.Proofs.HalfRate.StageHistory
import DramPhy.Proofs.HalfRate.Refinement
import DramPhy.Proofs.HalfRate.CompleteRuns
import DramPhy.Proofs.HalfRate.StageSettings
import DramPhy.Proofs.HalfRate.StageReads
import DramPhy.Proofs.Waveform.Playback
import DramPhy.Proofs.Waveform.PadReplay
import DramPhy.Proofs.Command.ShortCycles
import DramPhy.Proofs.Command.SuppressedCount
import DramPhy.Proofs.Phy.RegisterRun
import DramPhy.Proofs.Phy.PulseCount
import DramPhy.Proofs.Phy.LevelingPulses
import DramPhy.Proofs.Timing.BorrowingRounds
import DramPhy.Proofs.Pad.LaneAddressing
import DramPhy.Proofs.HalfRate.SerdesLink
import DramPhy.Proofs.Tool.Script
import DramPhy.Proofs.Tool.ScriptedRun
import DramPhy.Proofs.Tool.LoopbackVerdict
