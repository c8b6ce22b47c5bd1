import DramPhy.Count

/-! Tapped delay lines. Tap `k` gives the input of `k + 1` ticks ago and the last
tap is the output. A line keeps the inputs it still needs, newest first; taps
that no input has reached hold the reset value. -/

namespace DramPhy

structure DelayLine (α : Type) where
  length : Nat
  rest : α
  recent : List α

variable {α : Type}

def DelayLine.make (length : Nat) (rest : α) : Checked (DelayLine α) := do
  require (1 ≤ length) .tapPresent
  return ⟨length, rest, []⟩

def DelayLine.held (line : DelayLine α) (k : Nat) : α :=
  line.recent[k]?.getD line.rest

def DelayLine.tap (line : DelayLine α) (k : Nat) : Checked α :=
  if k < line.length then .ok (line.held k) else .error .outOfBounds

/-- Tap `k`, where tap `-1` is the input that has not been clocked in. -/
def DelayLine.tapOrInput (line : DelayLine α) (k : Int) (input : α) : Checked α := do
  if k < 0 then
    require (k = -1) .tapAtMostOneAhead
    return input
  else
    line.tap k.toNat

def DelayLine.output (line : DelayLine α) : Checked α := do
  let last ← Count.sub line.length 1
  line.tap last

/-- All taps, newest first. -/
def DelayLine.taps (line : DelayLine α) : List α :=
  (List.range line.length).map line.held

def DelayLine.tick (line : DelayLine α) (input : α) : DelayLine α :=
  { line with recent := (input :: line.recent).take line.length }

end DramPhy
