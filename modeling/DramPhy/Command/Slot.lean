import DramPhy.Word

/-! Commands in the form they take on the bus. A command occupies four ticks;
tick `k` drives bit `k` of the chip select and word `k` of the command address
pads. -/

namespace DramPhy

def commandTicks : Nat := 4

def caPads : Nat := 6

structure CommandSlot where
  valid : Bool
  cs : Byte
  ca : Vector Byte commandTicks
  deriving DecidableEq

def CommandSlot.idle : CommandSlot := ⟨false, 0, Vector.replicate commandTicks 0⟩

/-- A command with a high chip select on its first tick only. -/
def CommandSlot.single (first second : Byte) : CommandSlot :=
  ⟨true, 1, #v[first, second, 0, 0]⟩

def CommandSlot.csLane (c : CommandSlot) : Word := Word.cut (c.cs.setWidth 64) commandTicks

/-- The values that one command address pad takes in the command's ticks. -/
def CommandSlot.caLane (c : CommandSlot) (pad : Nat) : Checked Word :=
  if pad < 8 then
    .ok (Word.ofBits commandTicks fun k => (c.ca[k]?).any (·.getLsbD pad))
  else
    .error .overflow

end DramPhy
