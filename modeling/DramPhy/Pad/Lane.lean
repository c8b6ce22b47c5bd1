import DramPhy.Count

/-! Names of the pads. A lane carries the bits of one pad for a controller cycle,
bit 0 first. The clock and the data lanes change on both edges of the DRAM clock
and so carry two bits for each phase, the others one. -/

namespace DramPhy

inductive PadLane where
  | clk
  | cke
  | odt
  | resetN
  | cs
  | ca (i : Nat)
  | dmi (i : Nat)
  | dq (i : Nat)
  | dqs (i : Nat)
  deriving DecidableEq

def PadLane.doubleRate : PadLane → Bool
  | clk | dmi _ | dq _ | dqs _ => true
  | cke | odt | resetN | cs | ca _ => false

def PadLane.width (lane : PadLane) (phases : Nat) : Checked Nat :=
  if lane.doubleRate then Count.mul 2 phases else .ok phases

def PadLane.name : PadLane → String
  | clk => "clk"
  | cke => "cke"
  | odt => "odt"
  | resetN => "reset_n"
  | cs => "cs"
  | ca i => s!"ca{i}"
  | dmi i => s!"dmi{i}"
  | dq i => s!"dq{i}"
  | dqs i => s!"dqs{i}"

def PadLane.kind : PadLane → Nat
  | clk => 0
  | cke => 1
  | odt => 2
  | resetN => 3
  | cs => 4
  | ca _ => 5
  | dmi _ => 6
  | dq _ => 7
  | dqs _ => 8

def PadLane.index : PadLane → Nat
  | clk | cke | odt | resetN | cs => 0
  | ca i | dmi i | dq i | dqs i => i

/-- Lanes are ordered by kind and then by number. -/
instance : LT PadLane where
  lt a b := a.kind < b.kind ∨ a.kind = b.kind ∧ a.index < b.index

instance (a b : PadLane) : Decidable (a < b) :=
  inferInstanceAs (Decidable (_ ∨ _))

end DramPhy
