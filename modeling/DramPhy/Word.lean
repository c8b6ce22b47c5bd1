import DramPhy.Fault

/-! Words of a lane: up to 64 half ticks of one pad, bit 0 sent first. -/

namespace DramPhy

abbrev Word := BitVec 64

abbrev Byte := BitVec 8

/-- Ones in the low `n` bits. -/
def lowMask (n : Nat) : Word := BitVec.allOnes 64 >>> (64 - n)

/-- The low `n` bits of a word. -/
def Word.cut (x : Word) (n : Nat) : Word := x &&& lowMask n

/-- A legal shift moves a word by less than its width; bits pushed out are lost. -/
def Word.shiftUp (x : Word) (n : Nat) : Checked Word :=
  if n < 64 then .ok (x <<< n) else .error .overflow

def Word.shiftDown (x : Word) (n : Nat) : Checked Word :=
  if n < 64 then .ok (x >>> n) else .error .overflow

/-- Bit `i` of a word that is read by shifting it down. -/
def Word.bit (x : Word) (i : Nat) : Checked Bool :=
  if i < 64 then .ok (x.getLsbD i) else .error .overflow

/-- The word whose bit `i` is `f i` for `i < n`, all others low. -/
def Word.ofBits (n : Nat) (f : Nat → Bool) : Word :=
  match n with
  | 0 => 0
  | n + 1 => Word.ofBits n f ||| (BitVec.ofBool (f n)).setWidth 64 <<< n

def Word.put (x : Word) (i : Nat) (b : Bool) : Word :=
  (x &&& ~~~(1#64 <<< i)) ||| (BitVec.ofBool b).setWidth 64 <<< i

/-- None of the `n` bits from `lo` on is high. -/
def Word.quiet (x : Word) (lo n : Nat) : Bool := Word.cut (x >>> lo) n == 0

def Word.ones (x : Word) : Nat := (List.range 64).countP fun i => x.getLsbD i

def Word.union (xs : List Word) : Word := xs.foldl (· ||| ·) 0

theorem getLsbD_lowMask (n i : Nat) :
    (lowMask n).getLsbD i = (decide (i < n) && decide (i < 64)) := by
  simp only [lowMask, BitVec.getLsbD_ushiftRight, BitVec.getLsbD_allOnes]
  by_cases hn : n ≤ 64 <;> by_cases hi : i < n <;> by_cases hj : i < 64 <;>
    simp [hi, hj] <;> omega

theorem Word.getLsbD_cut (x : Word) (n i : Nat) :
    (x.cut n).getLsbD i = (x.getLsbD i && decide (i < n)) := by
  simp only [Word.cut, BitVec.getLsbD_and, getLsbD_lowMask]
  by_cases hi : i < 64
  · simp [hi]
  · simp [BitVec.getLsbD_of_ge x i (by omega)]

theorem Word.getLsbD_ofBits (n : Nat) (f : Nat → Bool) (i : Nat) :
    (Word.ofBits n f).getLsbD i = (decide (i < n) && decide (i < 64) && f i) := by
  induction n with
  | zero => simp [Word.ofBits]
  | succ n ih =>
    simp only [Word.ofBits, BitVec.getLsbD_or, ih, BitVec.getLsbD_shiftLeft,
      BitVec.getLsbD_setWidth]
    rcases Nat.lt_trichotomy i n with h | rfl | h
    · simp [h, Nat.lt_succ_of_lt h]
    · by_cases hi : i < 64 <;> simp [hi]
    · have h1 : ¬ i < n := by omega
      have h2 : ¬ i < n + 1 := by omega
      have h3 : i - n ≠ 0 := by omega
      simp [h1, h2, BitVec.getLsbD_ofBool, h3]

end DramPhy
