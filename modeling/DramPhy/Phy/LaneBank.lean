import DramPhy.BitSlip
import DramPhy.Calibration
import DramPhy.Timing.Resolution

/-! The bitslips of the data lanes of one direction. A lane belongs to a byte, and
all lanes of a byte are calibrated alike. -/

namespace DramPhy

def laneBits : Nat := 2 * phasesPerCycle

structure ByteSlip where
  byte : Nat
  slip : BitSlip

structure LaneBank where
  lanes : List ByteSlip

def LaneBank.make (bytes : List Nat) : Checked LaneBank := do
  let lanes ← bytes.mapM fun byte => do
    let slip ← BitSlip.make laneBits slipCycles
    return ⟨byte, slip⟩
  return ⟨lanes⟩

def LaneBank.words (bank : LaneBank) : Checked (List Word) :=
  bank.lanes.mapM fun lane => lane.slip.output

def ByteSlip.tick (lane : ByteSlip) (move : Nat → Checked SlipMove) (input : Word) :
    Checked ByteSlip := do
  let moved ← move lane.byte
  let slip ← lane.slip.tick input moved.reset moved.advance
  return { lane with slip }

/-- Take in a word on every lane, each moved as its byte is. -/
def LaneBank.tick (bank : LaneBank) (move : Nat → Checked SlipMove) (inputs : List Word) :
    Checked LaneBank := do
  let lanes ← (bank.lanes.zip inputs).mapM fun (lane, input) => lane.tick move input
  return ⟨lanes⟩

def LaneBank.slip (bank : LaneBank) (lane : Nat) : Checked Nat := do
  let found ← entry bank.lanes lane
  return found.slip.slip

end DramPhy
