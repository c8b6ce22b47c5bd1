import DramPhy.DelayLine
import DramPhy.Word

/-! The 2:1 stage between the controller clock and a clock of twice its rate. A
serializer sends a word of one cycle in the two halves of the next, low half
first; a deserializer joins the two halves of a cycle and hands the word on two
cycles later. -/

namespace DramPhy

/-- Cycles from a word to its first half. -/
def serializerCycles : Nat := 1

/-- Cycles from the first half to the word. -/
def deserializerCycles : Nat := 2

/-- A word is made of two halves of `width` bits. -/
def requireHalves (width : Nat) : Checked Nat := do
  let whole ← Count.mul 2 width
  require (whole ≤ 64) .halvesFitWord
  return whole

/-- What a register of `width` bits holds at first. -/
def resetFill (width : Nat) (high : Bool) : Word := if high then lowMask width else 0

/-- The two halves of a cycle, in the order of time. -/
structure Halves (α : Type) where
  first : α
  second : α
  deriving DecidableEq

structure Serializer where
  width : Nat
  held : Word

def Serializer.make (width : Nat) (high : Bool) : Checked Serializer := do
  let whole ← requireHalves width
  return ⟨width, resetFill whole high⟩

def Serializer.output (s : Serializer) : Checked (Halves Word) := do
  let upper ← s.held.shiftDown s.width
  return ⟨s.held.cut s.width, upper.cut s.width⟩

def Serializer.tick (s : Serializer) (input : Word) : Serializer :=
  { s with held := input.cut (2 * s.width) }

structure Deserializer where
  width : Nat
  words : DelayLine Word

def Deserializer.make (width : Nat) (high : Bool) : Checked Deserializer := do
  let whole ← requireHalves width
  let words ← DelayLine.make deserializerCycles (resetFill whole high)
  return ⟨width, words⟩

def Deserializer.output (d : Deserializer) : Checked Word := d.words.output

def Deserializer.tick (d : Deserializer) (halves : Halves Word) : Checked Deserializer := do
  let upper ← (halves.second.cut d.width).shiftUp d.width
  return { d with words := d.words.tick (halves.first.cut d.width ||| upper) }

end DramPhy
