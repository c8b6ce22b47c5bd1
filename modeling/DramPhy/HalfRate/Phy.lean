import DramPhy.HalfRate.Serdes
import DramPhy.Phy.Step

/-! A PHY behind a 2:1 stage, for serializers that reach only half the ratio. The
inner PHY is built with the latency of the stage added, so the controller sees
consistent settings. Every cycle has two pad samples, each half as wide. -/

namespace DramPhy

structure HalfRatePhy where
  inner : Phy
  serializers : List (PadLane × Serializer)
  deserializers : List (PadLane × Deserializer)
  dmiOe : DelayLine Bool
  dqOe : DelayLine Bool
  dqsOe : DelayLine Bool

def halfPhases : Nat := phasesPerCycle / 2

/-- The configuration of the PHY inside: the stage adds to its serializers and
deserializers. -/
def PhyConfig.behindStage (c : PhyConfig) : Checked PhyConfig := do
  let sent ← Latency.ofCycles phasesPerCycle serializerCycles
  let serializer ← c.serializer.add sent
  let received ← Latency.ofCycles phasesPerCycle deserializerCycles
  let deserializer ← c.deserializer.add received
  return { c with serializer, deserializer }

/-- A stage in front of a PHY. Only the data of the stage start with the reset
value; the output enables start low. -/
def HalfRatePhy.around (inner : Phy) : Checked HalfRatePhy := do
  let config := inner.config
  let serializers ← (PadOutput.blank halfPhases config.databits).lanes.mapM fun lane => do
    let width ← lane.width halfPhases
    return (lane, ← Serializer.make width config.serdesReset)
  let deserializers ← (PadInput.blank config.databits).lanes.mapM fun lane => do
    let width ← lane.width halfPhases
    return (lane, ← Deserializer.make width config.serdesReset)
  let enable ← DelayLine.make serializerCycles false
  return ⟨inner, serializers, deserializers, enable, enable, enable⟩

def HalfRatePhy.build (config : PhyConfig) (table : CasTable) : Buildable HalfRatePhy := do
  let innerConfig ← Checked.build config.behindStage
  let inner ← Phy.build innerConfig table
  Checked.build (HalfRatePhy.around inner)

/-- The pads that the inner PHY samples. -/
def HalfRatePhy.received (p : HalfRatePhy) : Checked PadInput :=
  p.deserializers.foldlM (fun pads d => do
      let word ← d.2.output
      return (pads.setLane? d.1 word).getD pads)
    (PadInput.blank p.inner.config.databits)

/-- One of the two samples driven in this cycle. -/
def HalfRatePhy.driveHalf (p : HalfRatePhy) (half : Halves Word → Word) : Checked PadOutput := do
  let blank := PadOutput.blank halfPhases p.inner.config.databits
  let out ← p.serializers.foldlM (fun out s => do
      let halves ← s.2.output
      out.setLane s.1 (half halves))
    blank
  let dmiOe ← p.dmiOe.output
  let dqOe ← p.dqOe.output
  let dqsOe ← p.dqsOe.output
  return { out with dmiOe, dqOe, dqsOe }

structure HalfRateCycle where
  phy : HalfRatePhy
  phases : List Phase
  pads : Halves PadOutput

/-- One controller cycle. `pads` are the samples of its two halves; a lane that a
sample lacks reads low. -/
def HalfRatePhy.step (p : HalfRatePhy) (phases : List Phase) (pads : Halves PadInput) :
    Checked HalfRateCycle := do
  let sampled ← p.received
  let cycle ← p.inner.step phases sampled
  let first ← p.driveHalf Halves.first
  let second ← p.driveHalf Halves.second
  let serializers ← p.serializers.mapM fun (lane, s) => do
    let word ← cycle.pads.lane lane
    return (lane, s.tick word)
  let deserializers ← p.deserializers.mapM fun (lane, d) => do
    let halves := ⟨(pads.first.lane? lane).getD 0, (pads.second.lane? lane).getD 0⟩
    return (lane, ← d.tick halves)
  let phy := {
    inner := cycle.phy
    serializers
    deserializers
    dmiOe := p.dmiOe.tick cycle.pads.dmiOe
    dqOe := p.dqOe.tick cycle.pads.dqOe
    dqsOe := p.dqsOe.tick cycle.pads.dqsOe }
  return ⟨phy, cycle.phases, ⟨first, second⟩⟩

end DramPhy
