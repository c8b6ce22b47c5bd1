import DramPhy.Fault

/-! Counts are unsigned 64-bit quantities and offsets are signed ones. Both are
kept as plain numbers: an operation whose exact result leaves the range is an
overflow, so that no count wraps around. Only the two readings `Count.toOffset`
and `Offset.toCount` of the same 64 bits do. -/

namespace DramPhy

def Count.limit : Nat := 0x10000000000000000

def Count.ofExact (n : Nat) : Checked Nat :=
  if n < Count.limit then .ok n else .error .overflow

def Count.add (a b : Nat) : Checked Nat := Count.ofExact (a + b)

def Count.mul (a b : Nat) : Checked Nat := Count.ofExact (a * b)

def Count.sub (a b : Nat) : Checked Nat :=
  if b ≤ a then .ok (a - b) else .error .overflow

def Count.div (a b : Nat) : Checked Nat :=
  if b = 0 then .error .divideByZero else .ok (a / b)

def Count.rem (a b : Nat) : Checked Nat :=
  if b = 0 then .error .divideByZero else .ok (a % b)

/-- The signed number with the bits of a count. -/
def Count.toOffset (n : Nat) : Int := Int.bmod n Count.limit

def Offset.limit : Int := 0x8000000000000000

def Offset.ofExact (i : Int) : Checked Int :=
  if -Offset.limit ≤ i ∧ i < Offset.limit then .ok i else .error .overflow

def Offset.add (a b : Int) : Checked Int := Offset.ofExact (a + b)

def Offset.sub (a b : Int) : Checked Int := Offset.ofExact (a - b)

def Offset.mul (a b : Int) : Checked Int := Offset.ofExact (a * b)

/-- The unsigned number with the bits of an offset. -/
def Offset.toCount (i : Int) : Nat := (i % Count.limit).toNat

end DramPhy
