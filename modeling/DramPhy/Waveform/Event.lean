import DramPhy.Pad.Bundle

/-! The events of a waveform. Time is counted in half ticks of the DRAM clock. A
stamp sets the time of the changes that follow it. -/

namespace DramPhy

inductive Level where
  | low
  | high
  /-- Not driven. -/
  | floating
  deriving DecidableEq

inductive WaveEvent where
  | stamp (time : Nat)
  | change (wire : Nat) (level : Level)
  deriving DecidableEq

/-- The bit of a lane's word that is sent in a half tick of its cycle. -/
def PadLane.position (lane : PadLane) (halfTick : Nat) : Nat :=
  if lane.doubleRate then halfTick else halfTick / 2

def PadOutput.level (out : PadOutput) (lane : PadLane) (halfTick : Nat) : Checked Level := do
  let word ← out.lane lane
  let high ← word.bit (lane.position halfTick)
  return if out.driven lane then
    if high then .high else .low
  else
    .floating

end DramPhy
