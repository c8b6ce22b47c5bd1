import DramPhy.BitSlip
import DramPhy.Command.Slot

/-! The command pads. Every phase of a controller cycle may start a command, and a
command stays on the bus for four ticks. Each phase has its commands slipped to
its own tick, and what the phases drive is united. With overlaps masked, a
command close behind an earlier one is kept off the pads; the decision needs
nothing but which phases were valid in the last two cycles. -/

namespace DramPhy

/-- Slots before a command's own that must be free of other commands. -/
def lookback : Nat := 3

/-- The pads of the command bus for one cycle, one bit per tick. -/
structure CommandBus where
  cs : Word
  ca : Vector Word caPads
  deriving DecidableEq

/-- One command pad: the bitslip of each phase, in phase order. -/
structure CommandPad where
  slips : List BitSlip

def CommandPad.make (phases : Nat) : Checked CommandPad := do
  let slips ← (List.range phases).mapM (BitSlip.fixed phases 1)
  return ⟨slips⟩

def CommandPad.drive (pad : CommandPad) (allowed : Word) : Checked Word := do
  let driving := pad.slips.zipIdx.filter fun s => allowed.getLsbD s.2
  let words ← driving.mapM fun s => s.1.output
  return Word.union words

/-- Take in one word for each phase. -/
def CommandPad.latch (pad : CommandPad) (words : List Word) : Checked CommandPad := do
  let slips ← (pad.slips.zip words).mapM fun s => s.1.shift s.2
  return ⟨slips⟩

structure Arbiter where
  phases : Nat
  masking : Bool
  /-- The valid phases of the last two cycles, the last one in the high half. -/
  valids : BitSlip
  cs : CommandPad
  ca : Vector CommandPad caPads
  suppressed : Nat

def Arbiter.make (phases : Nat) (masking : Bool) : Checked Arbiter := do
  require (lookback ≤ phases) .phasesCoverLookback
  let valids ← BitSlip.fixed phases 1 0
  let pad ← CommandPad.make phases
  return ⟨phases, masking, valids, pad, Vector.replicate caPads pad, 0⟩

/-- Slot `i` of a history is valid and no slot shortly before it is, as far back
as the history goes. -/
def isHead (history : Word) (i : Nat) : Bool :=
  history.getLsbD i && history.quiet (i - lookback) (min i lookback)

/-- The heads among the slots of the last two cycles. -/
def Arbiter.heads (a : Arbiter) : Word :=
  Word.ofBits (2 * a.phases) (isHead a.valids.history)

/-- The phases whose commands of the last cycle may reach the pads: those with no
head shortly before them. -/
def Arbiter.allowed (a : Arbiter) : Word :=
  if a.masking then
    let heads := a.heads
    Word.ofBits a.phases fun p => heads.quiet (a.phases + p - lookback) lookback
  else
    lowMask a.phases

def Arbiter.allows (a : Arbiter) (phase : Nat) : Checked Bool := a.allowed.bit phase

def Arbiter.output (a : Arbiter) : Checked CommandBus := do
  let cs ← a.cs.drive a.allowed
  let ca ← a.ca.mapM fun pad => pad.drive a.allowed
  return ⟨cs, ca⟩

/-- Commands of the last cycle that do not reach the pads. -/
def Arbiter.dropped (a : Arbiter) : Word :=
  (a.valids.history >>> a.phases) &&& ~~~a.allowed

/-- Take in the commands of a cycle, one for each phase. -/
def Arbiter.tick (a : Arbiter) (commands : List CommandSlot) : Checked Arbiter := do
  require (commands.length = a.phases) .commandPerPhase
  let suppressed ← Count.add a.suppressed a.dropped.ones
  let valids ← a.valids.shift
    (Word.ofBits commands.length fun i => commands[i]?.any (·.valid))
  let cs ← a.cs.latch (commands.map CommandSlot.csLane)
  let ca ← a.ca.zipIdx.mapM fun (pad, i) => do
    let words ← commands.mapM fun c => c.caLane i
    pad.latch words
  return { a with valids, cs, ca, suppressed }

end DramPhy
