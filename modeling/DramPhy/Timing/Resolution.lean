import DramPhy.BuildError
import DramPhy.Latency
import DramPhy.Timing.CasTable

/-! From CAS latencies in ticks to the latencies in whole cycles and the phases
that the controller issues its commands on. A command sent on phase `p` whose
data comes `cas` ticks later ends on a cycle boundary when `cycles * phases - p =
cas`; a negative phase borrows from the cycles. -/

namespace DramPhy

/-- DRAM clock ticks, and so phases, of a controller cycle. -/
def phasesPerCycle : Nat := 8

/-- Latencies of the PHY itself, against its own clock ratio. -/
abbrev PhyLatency := Latency phasesPerCycle

/-- Cycles from a phase record to the command pads. -/
def commandCycles : Nat := 1

/-- Whole cycles that a lane's bitslip holds back. -/
def slipCycles : Nat := 1

/-- Ticks that a command takes on the bus. CL and CWL count from its last one. -/
def defaultCommandTicks : Nat := 4

/-- Whole cycles that cover `cas` ticks. -/
def wholeCycles (phases cas : Nat) : Checked Int := do
  let sum ← Count.add cas phases
  let up ← Count.sub sum 1
  let cycles ← Count.div up phases
  return Count.toOffset cycles

/-- The phase to issue on so that `cas` ticks later a cycle ends. -/
def issuePhase (phases : Nat) (cycles : Int) (cas : Nat) : Checked Int := do
  let slots ← Offset.mul cycles (Count.toOffset phases)
  Offset.sub slots (Count.toOffset cas)

/-- Borrow one cycle at a time until the phase is not negative. A cycle without a
positive number of phases never ends that, and the cycles run out. -/
def borrowCycles (phases : Nat) (phase cycles : Int) : Checked (Int × Int) :=
  if phase < 0 then
    if 0 < Count.toOffset phases then
      match Offset.add cycles 1 with
      | .ok more => borrowCycles phases (phase + Count.toOffset phases) more
      | .error f => .error f
    else
      .error .overflow
  else
    .ok (phase, cycles)
termination_by (-phase).toNat
decreasing_by omega

structure TimingRequest where
  clock : Nat
  serializer : PhyLatency
  deserializer : PhyLatency
  commandTicks : Nat

structure Timing where
  cl : Nat
  cwl : Nat
  clCycles : Nat
  cwlCycles : Nat
  rdPhase : Nat
  wrPhase : Nat
  readLatency : Nat
  writeLatency : Nat
  commandTicks : Nat
  /-- The tap of the write enables that drives the DQ output enable. -/
  writeTap : Nat
  deriving DecidableEq

/-- The first phase and cycles of an access, before anything is borrowed. `extra`
is what the access takes on top of its CAS latency, added in that order. -/
def accessPhase (cas : Nat) (extra : List Nat) : Checked (Int × Int) := do
  let cycles ← wholeCycles phasesPerCycle cas
  let ticks ← extra.foldlM Count.add cas
  let phase ← issuePhase phasesPerCycle cycles ticks
  return (phase, cycles)

/-- Commands and write data see the serializer alike, so only reads have to make
up for the ticks of the serializer and the deserializer. -/
def resolveRow (row : CasRow) (request : TimingRequest) : Buildable Timing := do
  let (rdPhase, clCycles) ← Checked.build <|
    accessPhase row.cl
      [request.commandTicks, request.serializer.ticks, request.deserializer.ticks]
  let (wrPhase, cwlCycles) ← Checked.build <| accessPhase row.cwl [request.commandTicks]
  let (wrPhase, cwlCycles) ← Checked.build <| borrowCycles phasesPerCycle wrPhase cwlCycles
  let (rdPhase, clCycles) ← Checked.build <| borrowCycles phasesPerCycle rdPhase clCycles
  let toSerializer ← Checked.build <| Count.add commandCycles request.serializer.cycles
  let toPads ← Checked.build <| Count.add toSerializer (Offset.toCount clCycles)
  let fromPads ← Checked.build <| Count.add request.deserializer.cycles slipCycles
  let readLatency ← Checked.build <| Count.add toPads fromPads
  let tap ← Checked.build <| Offset.sub cwlCycles 1
  if tap < 0 then
    throw (.rejected (.negativeTap tap cwlCycles))
  else
    return {
      cl := row.cl
      cwl := row.cwl
      clCycles := Offset.toCount clCycles
      cwlCycles := Offset.toCount cwlCycles
      rdPhase := Offset.toCount rdPhase
      wrPhase := Offset.toCount wrPhase
      readLatency
      writeLatency := Offset.toCount cwlCycles
      commandTicks := request.commandTicks
      writeTap := Offset.toCount tap }

/-- The data rate of a clock, held at the largest count when it is none. -/
def shownDataRate (clock : Nat) : Nat :=
  min (2 * phasesPerCycle * clock) (Count.limit - 1)

def resolveTiming (table : CasTable) (request : TimingRequest) : Buildable Timing := do
  match ← Checked.build (table.lookup request.clock phasesPerCycle) with
  | some row => resolveRow row request
  | none => throw (.rejected (.unsupportedTiming request.clock (shownDataRate request.clock)))

end DramPhy
