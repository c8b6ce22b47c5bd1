import DramPhy.Waveform.Trace

/-! Waveforms as text, in the value change dump format: declarations, then a line
for each event. -/

namespace DramPhy

/-- A timescale is a 32-bit count. -/
def timescaleLimit : Nat := 0x100000000

/-- Half a DRAM clock tick in picoseconds, if that is a positive timescale. -/
def halfTickPicoseconds (clock phases : Nat) : Checked (Option Nat) := do
  let perCycle ← Count.mul 2 phases
  let perSecond := clock * perCycle
  let ps := 1000000000000 / perSecond
  return if perSecond < Count.limit ∧ 0 < ps ∧ ps < timescaleLimit then some ps else none

/-- How many characters wire codes are made of, from the first printable one on. -/
def codeBase : Nat := 94

def codeCharacter (digit : Nat) : Char := Char.ofNat (33 + digit)

/-- The code of a wire. Codes of one character come first, then those of two and so
on, each length in order. -/
def wireCode (n : Nat) : List Char :=
  if n < codeBase then
    [codeCharacter n]
  else
    wireCode (n / codeBase - 1) ++ [codeCharacter (n % codeBase)]
termination_by n
decreasing_by simp only [codeBase] at *; omega

def Level.character : Level → Char
  | low => '0'
  | high => '1'
  | floating => 'z'

/-- The text of an event, in the pieces that it is written in. -/
def WaveEvent.pieces : WaveEvent → List String
  | stamp time => ["#", toString time, "\n"]
  | change wire level =>
    (level.character :: wireCode wire).map String.singleton ++ ["\n"]

def WaveEvent.text (e : WaveEvent) : String := String.join e.pieces

def wireDeclaration (n : Nat) (lane : PadLane) : String :=
  s!"$var wire 1 {String.ofList (wireCode n)} {lane.name} $end\n"

/-- The declarations for the pads of a bundle. -/
def waveformHeader (scope : String) (template : PadOutput) (picoseconds : Nat) : String :=
  s!"$timescale {picoseconds} ps $end\n$scope module {scope} $end\n"
    ++ String.join (template.lanes.zipIdx.map fun (lane, n) => wireDeclaration n lane)
    ++ "$upscope $end\n$enddefinitions $end\n$dumpvars\n"

end DramPhy
