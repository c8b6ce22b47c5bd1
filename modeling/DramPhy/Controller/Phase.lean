import DramPhy.Command.Slot
import DramPhy.Count

/-! What the memory controller hands over for each phase of its cycle, and the
transpositions between the data of the phases and the words of the lanes. The
signal names are those of the controller interface. -/

namespace DramPhy

/-- One phase. Write and read data hold two beats, the first in the low bits; the
mask holds one bit for each byte and beat. -/
structure Phase where
  command : CommandSlot
  cke : Bool
  odt : Bool
  resetN : Bool
  wrdata : Word
  wrdataEn : Bool
  wrdataMask : Byte
  rddataEn : Bool
  rddata : Word
  rddataValid : Bool
  deriving DecidableEq

def Phase.idle : Phase :=
  ⟨CommandSlot.idle, false, false, false, 0, false, 0, false, 0, false⟩

def Phase.mask (p : Phase) : Word := p.wrdataMask.setWidth 64

/-- A flag of every phase, phase 0 in bit 0. -/
def flagWord (phases : List Phase) (flag : Phase → Bool) : Word :=
  Word.ofBits phases.length fun i => phases[i]?.any flag

/-- Where beat `i` of a cycle has its bit for a lane, within the data of its phase. -/
def beatBit (width lane i : Nat) : Nat := i % 2 * width + lane

/-- A lane of beats `width` bits wide reaches into words of 64 bits on both sides. -/
def LaneFits (phases : List Phase) (width lane : Nat) : Prop :=
  phases = [] ∨ 2 * phases.length ≤ 64 ∧ beatBit width lane 1 < 64

instance (phases : List Phase) (width lane : Nat) : Decidable (LaneFits phases width lane) :=
  inferInstanceAs (Decidable (_ ∨ _))

/-- The word of a lane in the order of transmission: bit `i` comes from beat
`i % 2` of phase `i / 2`. -/
def laneWord (phases : List Phase) (field : Phase → Word) (width lane : Nat) : Word :=
  Word.ofBits (2 * phases.length) fun i =>
    phases[i / 2]?.any fun p => (field p).getLsbD (beatBit width lane i)

def gatherLane (phases : List Phase) (field : Phase → Word) (width lane : Nat) : Checked Word :=
  if LaneFits phases width lane then
    .ok (laneWord phases field width lane)
  else
    .error .overflow

/-- The read data of phase `k` with the two bits of a lane's word put in. -/
def Phase.receive (p : Phase) (k width lane : Nat) (word : Word) : Phase :=
  let first := p.rddata.put (beatBit width lane 0) (word.getLsbD (2 * k))
  { p with rddata := first.put (beatBit width lane 1) (word.getLsbD (2 * k + 1)) }

def scatterLane (phases : List Phase) (width lane : Nat) (word : Word) :
    Checked (List Phase) :=
  if LaneFits phases width lane then
    .ok (phases.mapIdx fun k p => p.receive k width lane word)
  else
    .error .overflow

end DramPhy
