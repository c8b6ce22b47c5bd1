import DramPhy.Fault

/-! Why a PHY cannot be built: its configuration is turned down for a stated
reason, or a fault ends the construction. -/

namespace DramPhy

inductive BuildError where
  /-- No row of the CAS table covers the data rate of the clock. -/
  | unsupportedTiming (clock dataRate : Nat)
  /-- The data width is not a positive number of whole bytes, or above `most`. -/
  | invalidWidth (databits most : Nat)
  /-- The write enable would be tapped before the delay line's input. -/
  | negativeTap (tap cwlCycles : Int)
  deriving DecidableEq

def BuildError.message : BuildError → String
  | unsupportedTiming clock dataRate =>
    s!"no CL/CWL entry for sys clock {clock} Hz (data rate {dataRate} MT/s)"
  | invalidWidth databits most =>
    s!"invalid data width {databits}: must be a non-zero multiple of 8 not above {most}"
  | negativeTap tap cwlCycles =>
    s!"write tap index {tap} is negative (cwl sys latency {cwlCycles})"

inductive BuildFailure where
  | rejected (e : BuildError)
  | faulted (f : Fault)
  deriving DecidableEq

abbrev Buildable := Except BuildFailure

def Checked.build {α : Type} (x : Checked α) : Buildable α :=
  x.mapError .faulted

end DramPhy
