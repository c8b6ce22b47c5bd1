import DramPhy.Waveform.Recording

/-! Traces of the pads. Each half tick of a cycle, every wire whose level is not
the one it had before is a change; the first change of a half tick is stamped. -/

namespace DramPhy

/-- A pad with the level it was last seen at. -/
structure Wire where
  lane : PadLane
  last : Option Level

structure Trace where
  wires : List Wire
  time : Nat

def Trace.start (template : PadOutput) : Trace :=
  ⟨template.lanes.map fun lane => ⟨lane, none⟩, 0⟩

/-- The changes of one half tick, from the wire numbered `n` on. -/
def recordWires (out : PadOutput) (halfTick time : Nat) (stamped : Bool) (n : Nat) :
    List Wire → Recording (List Wire)
  | [] => pure []
  | w :: ws => do
    let level ← Recording.ofChecked (out.level w.lane halfTick)
    if w.last = some level then
      let rest ← recordWires out halfTick time stamped (n + 1) ws
      return w :: rest
    else
      if stamped then pure () else Recording.emit (.stamp time)
      Recording.emit (.change n level)
      let rest ← recordWires out halfTick time true (n + 1) ws
      return { w with last := some level } :: rest

/-- The half ticks of a cycle that are left, from `halfTick` on. -/
def recordHalfTicks (out : PadOutput) (halfTick : Nat) : Nat → Trace → Recording Trace
  | 0, t => pure t
  | left + 1, t => do
    let wires ← recordWires out halfTick t.time false 0 t.wires
    let time ← Recording.ofChecked (Count.add t.time 1)
    recordHalfTicks out (halfTick + 1) left ⟨wires, time⟩

def Trace.record (t : Trace) (out : PadOutput) : Recording Trace := do
  let halfTicks ← Recording.ofChecked (Count.mul 2 out.phases)
  recordHalfTicks out 0 halfTicks t

end DramPhy
