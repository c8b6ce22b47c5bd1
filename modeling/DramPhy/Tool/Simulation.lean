import DramPhy.Stimulus.Keystream
import DramPhy.Tool.Arguments
import DramPhy.Tool.Bench
import DramPhy.Tool.Report
import DramPhy.Waveform.Sink
import DramPhy.Waveform.Text

/-! The simulator: run the bench with a random burst, tell what happens, and write
the pads to a waveform file if there is to be one. -/

namespace DramPhy

structure SimulationOptions where
  clock : Nat
  databits : Nat
  cycles : Nat
  commandTicks : Nat
  overlapMasking : Bool
  maskedWrite : Bool
  loopback : Bool
  seed : Nat
  waveform : Option String

def SimulationOptions.specs : List OptionSpec :=
  [⟨"sys-clk-freq", .count⟩, ⟨"databits", .count⟩, ⟨"cycles", .count⟩,
   ⟨"cmd-latency", .count⟩, ⟨"no-overlap-mask", .flag⟩, ⟨"no-masked-write", .flag⟩,
   ⟨"loopback", .flag⟩, ⟨"seed", .count⟩, ⟨"output-vcd", .path⟩]

def SimulationOptions.parse? (args : List String) : Option SimulationOptions := do
  let o ← parseArguments? SimulationOptions.specs [] none args
  return {
    clock := (o.count? "sys-clk-freq").getD 100000000
    databits := (o.count? "databits").getD 16
    cycles := (o.count? "cycles").getD 32
    commandTicks := (o.count? "cmd-latency").getD defaultCommandTicks
    overlapMasking := !o.has "no-overlap-mask"
    maskedWrite := !o.has "no-masked-write"
    loopback := o.has "loopback"
    seed := (o.count? "seed").getD 0
    waveform := o.path? "output-vcd" }

def SimulationOptions.config (o : SimulationOptions) : PhyConfig :=
  { PhyConfig.ofClock o.clock with
    databits := o.databits
    commandTicks := o.commandTicks
    overlapMasking := o.overlapMasking
    maskedWrite := o.maskedWrite }

/-- The burst: a word of two beats for each phase. -/
def SimulationOptions.burst (o : SimulationOptions) : List Word :=
  (seededWords o.seed phasesPerCycle).map fun w => Word.cut w (2 * o.databits)

/-- A number in lower-case hexadecimal, with zeros up to `digits` places. -/
def hexText (digits : Nat) (w : Word) : String :=
  let text := Nat.toDigits 16 w.toNat
  "0x" ++ String.ofList (List.replicate (digits - text.length) '0' ++ text)

def Notice.message : Notice → String
  | burst words =>
    let list := String.intercalate ", " (words.map (hexText 1))
    s!"write burst: {list}"
  | readData cycle words =>
    let list := String.intercalate ", " (words.map (hexText 1))
    s!"cycle {cycle}: read data valid: {list}"
  | loopedBack cycle => s!"cycle {cycle}: write burst looped back"
  | driving cycle dq =>
    let list := String.intercalate " " (dq.map (hexText 4))
    s!"cycle {cycle}: driving dq {list}"

/-- A waveform on its way into a file. -/
structure WaveformFile where
  trace : Trace
  file : BlockFile

def WaveformFile.create (template : PadOutput) (picoseconds : Nat) : WaveformFile :=
  ⟨Trace.start template, BlockFile.empty.write (waveformHeader "lpddr4phy" template picoseconds)⟩

def WaveformFile.record (w : WaveformFile) (out : PadOutput) : WaveformFile :=
  let recording := w.trace.record out
  let pieces := (recording.events.map WaveEvent.pieces).flatten
  { trace := recording.result.toOption.getD w.trace
    file := pieces.foldl BlockFile.write w.file }

/-- Exit status of a run: a fault ends the program, and a burst that should have
come back and did not is a failure. -/
def runCode {σ : Type} (loopback : Bool) (run : Bench σ × Option Fault) : Nat :=
  if run.2.isSome then faultCode
  else if loopback && run.1.loopedBack.isNone then 1
  else 0

def failureMessage : String := "write burst never came back through the loopback"

/-- A run that comes to its end warns of the commands that were kept off the pads. -/
def dropWarnings {σ : Type} (run : Bench σ × Option Fault) : List String :=
  let dropped := run.1.phy.suppressed
  if run.2.isNone && 0 < dropped then [s!"{dropped} overlapping commands were dropped"] else []

/-- The simulation of a PHY that has been built, with a burst of write data. A run
that fails leaves at once, and what the file had pending is lost. -/
def simulateWith (o : SimulationOptions) (phy : Phy) (burst : List Word)
    (waveform : Option (String × WaveformFile)) : ToolReport :=
  let watch := fun w out => Option.map (fun f => WaveformFile.record f out) w
  let run := Bench.run burst o.loopback watch o.cycles (Bench.start phy (waveform.map (·.2)))
  let told := (Notice.burst burst :: run.1.notices.reverse).map Notice.message ++ dropWarnings run
  let path := (waveform.map (·.1)).getD ""
  let code := runCode o.loopback run
  if code = 1 then
    ⟨code, "", told ++ [failureMessage], run.1.watched.map fun f => (path, f.file.written)⟩
  else
    ⟨code, "", told, run.1.watched.map fun f => (path, f.file.closed)⟩

def SimulationOptions.simulate (o : SimulationOptions) : ToolReport :=
  match Phy.build o.config .mt53e256m16d1 with
  | .error (.rejected e) => ⟨1, "", [s!"cannot build PHY: {e.message}"], none⟩
  | .error (.faulted _) => ⟨faultCode, "", [], none⟩
  | .ok phy =>
    match o.waveform with
    | none => simulateWith o phy o.burst none
    | some path =>
      match halfTickPicoseconds o.clock phasesPerCycle with
      | .error _ => ⟨faultCode, "", [], some (path, "")⟩
      | .ok none =>
        ⟨1, "", [s!"cannot express the {o.clock} Hz half tick in ps"], some (path, "")⟩
      | .ok (some ps) =>
        let template := PadOutput.blank phasesPerCycle o.databits
        simulateWith o phy o.burst (some (path, WaveformFile.create template ps))

def simulation (args : List String) : ToolReport :=
  match SimulationOptions.parse? args with
  | some o => o.simulate
  | none => .usage

end DramPhy
