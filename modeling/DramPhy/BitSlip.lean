import DramPhy.Count
import DramPhy.Word

/-! A bitslip holds the last `cycles + 1` words of a lane, the oldest in the low
bits, and lets a window of one word through. Read as a serial stream the lane
leaves it `width + slip` bits late; calibration moves the slip. -/

namespace DramPhy

structure BitSlip where
  width : Nat
  cycles : Nat
  slip : Nat
  history : Word

/-- How many slips there are. -/
def BitSlip.range (s : BitSlip) : Nat := s.cycles * s.width

/-- Bits from the input to the output. -/
def BitSlip.delay (s : BitSlip) : Nat := s.width + s.slip

def BitSlip.make (width cycles : Nat) : Checked BitSlip := do
  require (1 ≤ cycles) .wholeCycleHeld
  let words ← Count.add cycles 1
  let bits ← Count.mul words width
  require (1 ≤ width ∧ bits ≤ 64) (.historyFits words width)
  return ⟨width, cycles, 0, 0⟩

def BitSlip.setSlip (s : BitSlip) (slip : Nat) : Checked BitSlip := do
  require (slip < s.range) (.slipInRange slip)
  return { s with slip }

/-- A bitslip whose slip is set once and for all. -/
def BitSlip.fixed (width cycles slip : Nat) : Checked BitSlip := do
  let s ← BitSlip.make width cycles
  s.setSlip slip

def BitSlip.output (s : BitSlip) : Checked Word := do
  let down ← Count.sub s.range s.slip
  let window ← s.history.shiftDown down
  return window.cut s.width

/-- The slip after a tick, one bit on and back to 0 at the end of its range. -/
def BitSlip.nextSlip (s : BitSlip) (advance : Bool) : Checked Nat :=
  if advance then do
    let next ← Count.add s.slip 1
    Count.rem next s.range
  else
    .ok s.slip

/-- Take in a word. `reset` drops the older words and the slip, and wins over
`advance`. -/
def BitSlip.tick (s : BitSlip) (input : Word) (reset advance : Bool) : Checked BitSlip := do
  let older ← s.history.shiftDown s.width
  let newest ← (input.cut s.width).shiftUp s.range
  let slip ← s.nextSlip advance
  return if reset then
    { s with slip := 0, history := newest }
  else
    { s with slip, history := older ||| newest }

/-- Take in a word without touching the slip. -/
def BitSlip.shift (s : BitSlip) (input : Word) : Checked BitSlip :=
  s.tick input false false

end DramPhy
