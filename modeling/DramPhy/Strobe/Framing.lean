import DramPhy.DelayLine
import DramPhy.Strobe.Pattern

/-! Framing of the writes. The controller's write enables run down a delay line;
one tap enables DQ, and its two neighbours tell the cycle before a write and the
cycle after it, in which the strobe is driven too. -/

namespace DramPhy

structure WriteFraming where
  enables : DelayLine Bool
  tap : Nat

def WriteFraming.make (tap : Nat) : Checked WriteFraming := do
  let length ← Count.add tap 2
  let enables ← DelayLine.make length false
  return ⟨enables, tap⟩

/-- The frame of this cycle. `enable` is the cycle's own write enable, which only
a framing with tap 0 looks at. -/
def WriteFraming.frame (f : WriteFraming) (enable leveling : Bool) : Checked StrobeFrame := do
  let tap := Count.toOffset f.tap
  let dqOe ← f.enables.tapOrInput tap enable
  let next ← Offset.sub tap 1
  let starting ← f.enables.tapOrInput next enable
  let last ← Offset.add tap 1
  let ending ← f.enables.tapOrInput last enable
  let preamble := starting && !dqOe
  let postamble := ending && !dqOe
  return ⟨dqOe, leveling || preamble || dqOe || postamble, preamble, postamble⟩

def WriteFraming.tick (f : WriteFraming) (enable : Bool) : WriteFraming :=
  { f with enables := f.enables.tick enable }

end DramPhy
