import DramPhy.Command.Slot
import DramPhy.Pad.Lane
import DramPhy.Word

/-! The pads of one controller cycle, as driven and as sampled. Data lanes share
one output enable per kind; the clock and the command lanes are always driven. -/

namespace DramPhy

structure PadOutput where
  phases : Nat
  clk : Word
  cke : Word
  odt : Word
  resetN : Word
  cs : Word
  ca : Vector Word caPads
  dmi : List Word
  dmiOe : Bool
  dq : List Word
  dqOe : Bool
  dqs : List Word
  dqsOe : Bool
  deriving DecidableEq

structure PadInput where
  dmi : List Word
  dq : List Word
  dqs : List Word
  deriving DecidableEq

def byteLanes (databits : Nat) : Nat := databits / 8

/-- Low pads, with no data lane enabled. -/
def PadOutput.blank (phases databits : Nat) : PadOutput where
  phases
  clk := 0
  cke := 0
  odt := 0
  resetN := 0
  cs := 0
  ca := Vector.replicate caPads 0
  dmi := List.replicate (byteLanes databits) 0
  dmiOe := false
  dq := List.replicate databits 0
  dqOe := false
  dqs := List.replicate (byteLanes databits) 0
  dqsOe := false

def PadInput.blank (databits : Nat) : PadInput where
  dmi := List.replicate (byteLanes databits) 0
  dq := List.replicate databits 0
  dqs := List.replicate (byteLanes databits) 0

/-- The data lanes of bundles with the given numbers of pads. -/
def dataLanes (dmi dq dqs : Nat) : List PadLane :=
  (List.range dmi).map .dmi ++ (List.range dq).map .dq ++ (List.range dqs).map .dqs

def PadOutput.lanes (out : PadOutput) : List PadLane :=
  [.clk, .cke, .odt, .resetN, .cs] ++ (List.range caPads).map .ca ++
    dataLanes out.dmi.length out.dq.length out.dqs.length

def PadInput.lanes (pads : PadInput) : List PadLane :=
  dataLanes pads.dmi.length pads.dq.length pads.dqs.length

def PadOutput.lane (out : PadOutput) : PadLane → Checked Word
  | .clk => .ok out.clk
  | .cke => .ok out.cke
  | .odt => .ok out.odt
  | .resetN => .ok out.resetN
  | .cs => .ok out.cs
  | .ca i => entry out.ca.toList i
  | .dmi i => entry out.dmi i
  | .dq i => entry out.dq i
  | .dqs i => entry out.dqs i

def PadOutput.setLane (out : PadOutput) (lane : PadLane) (word : Word) : Checked PadOutput :=
  match lane with
  | .clk => .ok { out with clk := word }
  | .cke => .ok { out with cke := word }
  | .odt => .ok { out with odt := word }
  | .resetN => .ok { out with resetN := word }
  | .cs => .ok { out with cs := word }
  | .ca i =>
    if h : i < caPads then .ok { out with ca := out.ca.set i word h }
    else .error .outOfBounds
  | .dmi i => do return { out with dmi := ← replaceEntry out.dmi i word }
  | .dq i => do return { out with dq := ← replaceEntry out.dq i word }
  | .dqs i => do return { out with dqs := ← replaceEntry out.dqs i word }

def PadOutput.driven (out : PadOutput) : PadLane → Bool
  | .dmi _ => out.dmiOe
  | .dq _ => out.dqOe
  | .dqs _ => out.dqsOe
  | .clk | .cke | .odt | .resetN | .cs | .ca _ => true

def PadInput.lane? (pads : PadInput) : PadLane → Option Word
  | .dmi i => pads.dmi[i]?
  | .dq i => pads.dq[i]?
  | .dqs i => pads.dqs[i]?
  | .clk | .cke | .odt | .resetN | .cs | .ca _ => none

/-- The bundle with an input lane set, if it has that lane. -/
def PadInput.setLane? (pads : PadInput) (lane : PadLane) (word : Word) : Option PadInput :=
  match lane with
  | .dmi i => if i < pads.dmi.length then some { pads with dmi := pads.dmi.set i word } else none
  | .dq i => if i < pads.dq.length then some { pads with dq := pads.dq.set i word } else none
  | .dqs i => if i < pads.dqs.length then some { pads with dqs := pads.dqs.set i word } else none
  | .clk | .cke | .odt | .resetN | .cs | .ca _ => none

/-- What pads read back that are driven or not: a pad that is not reads low. -/
def readBack (driven : Bool) (words : List Word) : List Word :=
  words.map fun w => if driven then w else 0

/-- The pads as sampled when each is shorted to what drives it. -/
def PadInput.loopback (out : PadOutput) : PadInput where
  dmi := readBack out.dmiOe out.dmi
  dq := readBack out.dqOe out.dq
  dqs := readBack out.dqsOe out.dqs

end DramPhy
