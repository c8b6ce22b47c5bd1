import DramPhy.Count

/-! A latency is a number of whole controller cycles and a remainder of DRAM
clock ticks, of which `ratio` make a cycle. Surplus ticks carry into the cycles
whenever a latency is made, so the remainder stays below the ratio. -/

namespace DramPhy

structure Latency (ratio : Nat) where
  cycles : Nat
  ticks : Nat
  deriving DecidableEq

def Latency.zero (ratio : Nat) : Latency ratio := ⟨0, 0⟩

def Latency.make (ratio cycles ticks : Nat) : Checked (Latency ratio) := do
  require (1 ≤ ratio) .positiveRatio
  let whole ← Count.add cycles (ticks / ratio)
  return ⟨whole, ticks % ratio⟩

def Latency.ofCycles (ratio cycles : Nat) : Checked (Latency ratio) :=
  Latency.make ratio cycles 0

/-- Cycles and ticks are added apart, and only then is the carry taken. -/
def Latency.add {ratio : Nat} (a b : Latency ratio) : Checked (Latency ratio) := do
  let cycles ← Count.add a.cycles b.cycles
  let ticks ← Count.add a.ticks b.ticks
  Latency.make ratio cycles ticks

def Latency.total {ratio : Nat} (l : Latency ratio) : Checked Nat := do
  let whole ← Count.mul l.cycles ratio
  Count.add whole l.ticks

def Latency.text {ratio : Nat} (l : Latency ratio) : String :=
  s!"Latency(sys={l.cycles}, sys{ratio}x={l.ticks})"

end DramPhy
