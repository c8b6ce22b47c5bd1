/-! Pseudo-random words for test data: the ChaCha20 keystream under a key that is
spread from a 64-bit seed. -/

namespace DramPhy

abbrev Cell := BitVec 32

abbrev Block := Vector Cell 16

/-- The generator that spreads a seed: its next state. -/
def seedStep (s : BitVec 64) : BitVec 64 :=
  s * 6364136223846793005#64 + 11634580027462260723#64

/-- The cell drawn from a state of it. -/
def seedCell (s : BitVec 64) : Cell :=
  let mixed : Cell := (((s >>> 18) ^^^ s) >>> 27).setWidth 32
  mixed.rotateRight (s >>> 59).toNat

def spreadSeed (s : BitVec 64) : Nat → List Cell
  | 0 => []
  | n + 1 => seedCell (seedStep s) :: spreadSeed (seedStep s) n

/-- Four cells are mixed by additions, exclusive ors and rotations. -/
def quarterRound (b : Block) (i j k l : Fin 16) : Block :=
  let b := b.set i (b[i] + b[j])
  let b := b.set l ((b[l] ^^^ b[i]).rotateLeft 16)
  let b := b.set k (b[k] + b[l])
  let b := b.set j ((b[j] ^^^ b[k]).rotateLeft 12)
  let b := b.set i (b[i] + b[j])
  let b := b.set l ((b[l] ^^^ b[i]).rotateLeft 8)
  let b := b.set k (b[k] + b[l])
  b.set j ((b[j] ^^^ b[k]).rotateLeft 7)

/-- A round on the columns and one on the diagonals. -/
def doubleRound (b : Block) : Block :=
  let b := quarterRound b 0 4 8 12
  let b := quarterRound b 1 5 9 13
  let b := quarterRound b 2 6 10 14
  let b := quarterRound b 3 7 11 15
  let b := quarterRound b 0 5 10 15
  let b := quarterRound b 1 6 11 12
  let b := quarterRound b 2 7 8 13
  quarterRound b 3 4 9 14

def blockConstants : List Cell := [0x61707865, 0x3320646e, 0x79622d32, 0x6b206574]

/-- The block that a key and a counter start from. The nonce is 0. -/
def startBlock (key : List Cell) (counter : BitVec 64) : Block :=
  let cells := blockConstants ++ key ++ [counter.setWidth 32, (counter >>> 32).setWidth 32]
  Vector.ofFn fun i => cells.getD i.val 0

def keystreamBlock (key : List Cell) (counter : BitVec 64) : Block :=
  let start := startBlock key counter
  start.zipWith (· + ·) (Nat.repeat doubleRound 10 start)

/-- Cells taken in pairs, the low half of a word first. -/
def pairCells : List Cell → List (BitVec 64)
  | low :: high :: cells => (high ++ low) :: pairCells cells
  | _ => []

def seededWords (seed n : Nat) : List (BitVec 64) :=
  let key := spreadSeed (BitVec.ofNat 64 seed) 8
  let blocks := (List.range (n / 8 + 1)).map fun c =>
    (keystreamBlock key (BitVec.ofNat 64 c)).toList
  (pairCells blocks.flatten).take n

end DramPhy
