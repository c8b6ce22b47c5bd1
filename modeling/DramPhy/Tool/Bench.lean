import DramPhy.Phy.Step

/-! The bench: a PHY, a controller that writes one burst and reads it back, and pads
that are shorted or not. -/

namespace DramPhy

/-- What is worth telling about a cycle. -/
inductive Notice where
  | burst (words : List Word)
  | readData (cycle : Nat) (words : List Word)
  | loopedBack (cycle : Nat)
  | driving (cycle : Nat) (dq : List Word)
  deriving DecidableEq

/-- A command in two parts of two ticks, with a high chip select on the first tick
of each. -/
def burstCommand (first : Byte) : CommandSlot :=
  ⟨true, 0b0101, #v[first, 0, 0b010010, 0]⟩

def writeOpcode : Byte := 0b000100

def readOpcode : Byte := 0b000010

def writeCycle : Nat := 2

def readCycle : Nat := writeCycle + 8

/-- The controller keeps the DRAM clocked and out of reset throughout. -/
def runningPhase : Phase := { Phase.idle with cke := true, resetN := true }

def amendPhase (phases : List Phase) (k : Nat) (change : Phase → Phase) : Checked (List Phase) := do
  let phase ← entry phases k
  replaceEntry phases k (change phase)

/-- The phases of a cycle: the write, its data as late as the write latency asks,
and the read. -/
def scriptPhases (timing : Timing) (burst : List Word) (cycle : Nat) : Checked (List Phase) := do
  let running := List.replicate phasesPerCycle runningPhase
  let writing ← if cycle = writeCycle then
      amendPhase running timing.wrPhase fun p =>
        { p with command := burstCommand writeOpcode, wrdataEn := true }
    else
      pure running
  let dataCycle ← Count.add writeCycle timing.writeLatency
  let filled := if cycle = dataCycle then
      List.zipWith (fun p word => { p with wrdata := word }) writing burst
    else
      writing
  if cycle = readCycle then
    amendPhase filled timing.rdPhase fun p =>
      { p with command := burstCommand readOpcode, rddataEn := true }
  else
    return filled

/-- The bench between two cycles, with whatever has been made of the pads so far. -/
structure Bench (σ : Type) where
  phy : Phy
  pads : PadInput
  cycle : Nat
  /-- The first cycle whose read data are the burst. -/
  loopedBack : Option Nat
  /-- Newest first. -/
  notices : List Notice
  watched : σ

variable {σ : Type}

def Bench.start (phy : Phy) (watched : σ) : Bench σ :=
  ⟨phy, PadInput.blank phy.config.databits, 0, none, [], watched⟩

/-- What a cycle gives notice of, newest first. -/
def cycleNotices (cycle : Nat) (phases : List Phase) (found : Bool) (pads : PadOutput) :
    List Notice :=
  let read := phases.map (·.rddata)
  (if pads.dqOe then [.driving cycle pads.dq] else [])
    ++ (if found then [.loopedBack cycle] else [])
    ++ (if phases[0]?.any (·.rddataValid) then [.readData cycle read] else [])

def Bench.advance (b : Bench σ) (burst : List Word) (loopback : Bool)
    (watch : σ → PadOutput → σ) : Checked (Bench σ) := do
  let phases ← scriptPhases b.phy.settings.timing burst b.cycle
  let done ← b.phy.step phases b.pads
  let found := b.loopedBack.isNone && done.phases.map (·.rddata) == burst
  return {
    phy := done.phy
    pads := if loopback then .loopback done.pads else .blank b.phy.config.databits
    cycle := b.cycle + 1
    loopedBack := if found then some b.cycle else b.loopedBack
    notices := cycleNotices b.cycle done.phases found done.pads ++ b.notices
    watched := watch b.watched done.pads }

/-- The bench after a number of cycles, or at the fault that stopped it. -/
def Bench.run (burst : List Word) (loopback : Bool) (watch : σ → PadOutput → σ) :
    Nat → Bench σ → Bench σ × Option Fault
  | 0, b => (b, none)
  | left + 1, b =>
    match b.advance burst loopback watch with
    | .ok next => Bench.run burst loopback watch left next
    | .error f => (b, some f)

end DramPhy
