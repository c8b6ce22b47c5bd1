import DramPhy.Word

/-! The words sent on the data strobe. Around the data of a write the strobe
carries a preamble and a postamble; in write leveling it is low but for one edge
on each leveling strobe. -/

namespace DramPhy

/-- The strobe of a cycle: what is driven, and which edge of a write this is. -/
structure StrobeFrame where
  dqOe : Bool
  dqsOe : Bool
  preamble : Bool
  postamble : Bool
  deriving DecidableEq

structure StrobePatterns where
  data : Word
  preamble : Word
  postamble : Word
  /-- Some controllers define the preamble and the postamble the other way around. -/
  swapped : Bool
  deriving DecidableEq

/-- The strobe toggles in every tick of the data, in the last two ticks before them
and in the first one after them. -/
def StrobePatterns.standard : StrobePatterns := ⟨0x5555, 0x5000, 0x0001, false⟩

def StrobePatterns.beforeData (p : StrobePatterns) : Word :=
  if p.swapped then p.postamble else p.preamble

def StrobePatterns.afterData (p : StrobePatterns) : Word :=
  if p.swapped then p.preamble else p.postamble

/-- The strobe word of a frame. A cycle that both ends one write and precedes
another carries the end. -/
def StrobePatterns.word (p : StrobePatterns) (frame : StrobeFrame)
    (leveling strobe : Bool) : Word :=
  if leveling then
    if strobe then 1 else 0
  else if frame.postamble then
    p.afterData
  else if frame.preamble then
    p.beforeData
  else
    p.data

end DramPhy
