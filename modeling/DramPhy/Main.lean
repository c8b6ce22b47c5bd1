import DramPhy.Tool.Simulation
import DramPhy.Tool.TimingReport

/-! The command line: the name of a program, then its arguments. -/

namespace DramPhy

def runTool (name : String) (args : List String) : Option ToolReport :=
  match name with
  | "timing" => some (timingReport args)
  | "simulate" => some (simulation args)
  | _ => none

def OptionSpec.usage (spec : OptionSpec) : String :=
  match spec.kind with
  | .flag => s!" [--{spec.name}]"
  | .count => s!" [--{spec.name} N]"
  | .path => s!" [--{spec.name} FILE]"

def usageText : String :=
  let line := fun name specs => s!"  {name}" ++ String.join (List.map OptionSpec.usage specs)
  "usage:\n" ++ line "timing" TimingOptions.specs ++ "\n"
    ++ line "simulate" SimulationOptions.specs

/-- Bring out what a program leaves behind. -/
def ToolReport.deliver (r : ToolReport) : IO UInt32 := do
  match r.file with
  | some (path, contents) => IO.FS.writeFile path contents
  | none => pure ()
  IO.print r.output
  for message in r.log do
    IO.eprintln message
  if r.code = usageCode then
    IO.eprintln usageText
  return r.code.toUInt32

end DramPhy

def main (args : List String) : IO UInt32 :=
  match args with
  | name :: rest => ((DramPhy.runTool name rest).getD .usage).deliver
  | [] => DramPhy.ToolReport.usage.deliver
