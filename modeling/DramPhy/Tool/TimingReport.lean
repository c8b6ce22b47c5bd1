import DramPhy.HalfRate.Phy
import DramPhy.Tool.Arguments
import DramPhy.Tool.Report

/-! The timing report: the latencies of a PHY for one clock, or for the fastest
clock of every row of the built-in table. -/

namespace DramPhy

structure TimingOptions where
  clock : Option Nat
  serializerTicks : Nat
  deserializerTicks : Nat
  commandTicks : Nat
  halfRate : Bool

def TimingOptions.specs : List OptionSpec :=
  [⟨"sys-clk-freq", .count⟩, ⟨"ser-ticks", .count⟩, ⟨"des-ticks", .count⟩,
   ⟨"cmd-latency", .count⟩, ⟨"double-rate", .flag⟩]

def TimingOptions.parse? (args : List String) : Option TimingOptions := do
  let o ← parseArguments? TimingOptions.specs [] none args
  return {
    clock := o.count? "sys-clk-freq"
    serializerTicks := (o.count? "ser-ticks").getD 0
    deserializerTicks := (o.count? "des-ticks").getD 0
    commandTicks := (o.count? "cmd-latency").getD defaultCommandTicks
    halfRate := o.has "double-rate" }

/-- The clocks of the report: a row covers a clock up to its data rate. -/
def TimingOptions.clocks (o : TimingOptions) : List Nat :=
  match o.clock with
  | some clock => [clock]
  | none => CasTable.mt53e256m16d1.map fun row => row.maxDataRate / (2 * phasesPerCycle)

def padLeft (width : Nat) (text : String) : String :=
  String.ofList (List.replicate (width - text.length) ' ') ++ text

/-- A line of the report, each field to the right of its column. -/
def reportLine (fields : List String) : String :=
  String.intercalate " " (List.zipWith padLeft [12, 4, 4, 8, 8, 8, 8] fields) ++ "\n"

def reportHeading : String :=
  reportLine ["sys_clk", "cl", "cwl", "rdphase", "wrphase", "rd_lat", "wr_lat"]

def Timing.reportFields (t : Timing) (clock : Nat) : List String :=
  [clock, t.cl, t.cwl, t.rdPhase, t.wrPhase, t.readLatency, t.writeLatency].map toString

def TimingOptions.timing (o : TimingOptions) (clock : Nat) : Buildable Timing := do
  let serializer ← Checked.build (Latency.make phasesPerCycle 0 o.serializerTicks)
  let deserializer ← Checked.build (Latency.make phasesPerCycle 0 o.deserializerTicks)
  let config := { PhyConfig.ofClock clock with
    serializer, deserializer, commandTicks := o.commandTicks }
  if o.halfRate then
    return (← HalfRatePhy.build config .mt53e256m16d1).inner.settings.timing
  else
    return (← Phy.build config .mt53e256m16d1).settings.timing

/-- Report the clocks in turn. A clock that has no PHY is logged and makes the
status 1; a fault ends the report. -/
def reportClocks (o : TimingOptions) (soFar : ToolReport) : List Nat → ToolReport
  | [] => soFar
  | clock :: clocks =>
    match o.timing clock with
    | .ok t =>
      let line := reportLine (t.reportFields clock)
      reportClocks o { soFar with output := soFar.output ++ line } clocks
    | .error (.rejected e) =>
      reportClocks o { soFar with code := 1, log := soFar.log ++ [e.message] } clocks
    | .error (.faulted _) => { soFar with code := faultCode }

def timingReport (args : List String) : ToolReport :=
  match TimingOptions.parse? args with
  | some o => reportClocks o ⟨0, reportHeading, [], none⟩ o.clocks
  | none => .usage

end DramPhy
