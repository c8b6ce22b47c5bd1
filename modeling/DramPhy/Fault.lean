/-! Why an operation of the model refuses to go on. A fault is a condition of
the arithmetic or of the caller that the operation does not answer to; it never
stands for a value. -/

namespace DramPhy

/-- What an operation insists on before it does anything. -/
inductive Requirement where
  | positiveRatio
  | tapPresent
  | tapAtMostOneAhead
  | wholeCycleHeld
  | historyFits (words width : Nat)
  | slipInRange (slip : Nat)
  | phasesCoverLookback
  | commandPerPhase
  | recordPerPhase
  | wordPerPad
  | halvesFitWord
  deriving DecidableEq

/-- The wording of a requirement, for those that have one. -/
def Requirement.message? : Requirement → Option String
  | positiveRatio => some "latency ratio must be positive"
  | tapPresent => some "a delay line needs at least one tap"
  | tapAtMostOneAhead => some "only one tap before the delay line exists"
  | historyFits words width =>
    some s!"bitslip history of {words} words x {width} bits does not fit"
  | slipInRange slip => some s!"slip {slip} out of range"
  | recordPerPhase => some "expected one record per phase"
  | wholeCycleHeld | phasesCoverLookback | commandPerPhase | wordPerPad | halvesFitWord => none

inductive Fault where
  | overflow
  | divideByZero
  | outOfBounds
  | violated (requirement : Requirement)
  deriving DecidableEq

def Fault.message? : Fault → Option String
  | violated r => r.message?
  | _ => none

abbrev Checked := Except Fault

def require (c : Prop) [Decidable c] (r : Requirement) : Checked Unit :=
  if c then .ok () else .error (.violated r)

/-- Entry `k` of a container, a fault beyond its end. -/
def entry {α : Type} (xs : List α) (k : Nat) : Checked α :=
  match xs[k]? with
  | some x => .ok x
  | none => .error .outOfBounds

/-- The container with entry `k` replaced, a fault beyond its end. -/
def replaceEntry {α : Type} (xs : List α) (k : Nat) (x : α) : Checked (List α) :=
  if k < xs.length then .ok (xs.set k x) else .error .outOfBounds

end DramPhy
