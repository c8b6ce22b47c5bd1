import DramPhy.Count

/-! Command line arguments: options with a name and a value, and flags. A value
follows its option, or is joined to it by an equals sign. Each option is given at
most once, and nothing else is accepted. -/

namespace DramPhy

inductive OptionKind where
  | flag
  | count
  | path
  deriving DecidableEq

structure OptionSpec where
  name : String
  kind : OptionKind

inductive OptionValue where
  | flag
  | count (n : Nat)
  | path (p : String)

abbrev Options := List (String × OptionValue)

/-- A decimal count. One plus sign and any zeros may lead it. -/
def parseCount? (text : String) : Option Nat :=
  let digits := match text.toList with
    | '+' :: cs => cs
    | cs => cs
  if digits ≠ [] ∧ digits.all Char.isDigit then
    let n := digits.foldl (fun n c => 10 * n + (c.toNat - '0'.toNat)) 0
    if n < Count.limit then some n else none
  else
    none

def OptionKind.parse? (kind : OptionKind) (text : String) : Option OptionValue :=
  match kind with
  | flag => none
  | count => (parseCount? text).map .count
  | path => if text = "" then none else some (.path text)

/-- Whether an argument stands for itself and not for an option. A lone dash does. -/
def isPlain (arg : String) : Bool :=
  match arg.toList with
  | '-' :: _ :: _ => false
  | _ => true

/-- An argument that names an option, split at its first equals sign. -/
def splitOption? (arg : String) : Option (String × Option String) :=
  match arg.toList with
  | '-' :: '-' :: cs =>
    let name := cs.takeWhile (· ≠ '=')
    match cs.dropWhile (· ≠ '=') with
    | [] => some (String.ofList name, none)
    | _ :: value => some (String.ofList name, some (String.ofList value))
  | _ => none

/-- Add an option that has not been given before. -/
def addOption? (given : Options) (name : String) (value : OptionValue) : Option Options :=
  if given.any (·.1 == name) then none else some (given ++ [(name, value)])

/-- Add an option with the value that its text stands for. -/
def addParsed? (given : Options) (spec : OptionSpec) (text : String) : Option Options := do
  let value ← spec.kind.parse? text
  addOption? given spec.name value

/-- Read arguments after the options given so far, where an option may be waiting
for its value. Two dashes end the options, so nothing may follow them. -/
def parseArguments? (specs : List OptionSpec) (given : Options) (waiting : Option OptionSpec) :
    List String → Option Options
  | [] => if waiting.isNone then some given else none
  | arg :: args =>
    match waiting with
    | some spec =>
      if isPlain arg then do
        let more ← addParsed? given spec arg
        parseArguments? specs more none args
      else
        none
    | none =>
      if arg = "--" then
        if args = [] then some given else none
      else do
        let (name, joined) ← splitOption? arg
        let spec ← specs.find? (·.name == name)
        match spec.kind, joined with
        | .flag, none => do
          let more ← addOption? given name .flag
          parseArguments? specs more none args
        | _, none => parseArguments? specs given (some spec) args
        | _, some text => do
          let more ← addParsed? given spec text
          parseArguments? specs more none args

def Options.has (o : Options) (name : String) : Bool := o.any (·.1 == name)

def Options.count? (o : Options) (name : String) : Option Nat :=
  match o.lookup name with
  | some (.count n) => some n
  | _ => none

def Options.path? (o : Options) (name : String) : Option String :=
  match o.lookup name with
  | some (.path p) => some p
  | _ => none

end DramPhy
