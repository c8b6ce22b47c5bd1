/-! Where waveform text goes: a file behind a buffer. -/

namespace DramPhy

/-- A file written in blocks. A piece that does not fit behind the pending ones
pushes them out first. -/
structure BlockFile where
  written : String
  pending : String

def blockBytes : Nat := 8192

def BlockFile.empty : BlockFile := ⟨"", ""⟩

def BlockFile.write (f : BlockFile) (piece : String) : BlockFile :=
  if blockBytes ≤ piece.utf8ByteSize then
    ⟨f.written ++ f.pending ++ piece, ""⟩
  else if f.pending.utf8ByteSize + piece.utf8ByteSize ≤ blockBytes then
    { f with pending := f.pending ++ piece }
  else
    ⟨f.written ++ f.pending, piece⟩

/-- The file with nothing pending, as it is once it has been closed. -/
def BlockFile.closed (f : BlockFile) : String := f.written ++ f.pending

end DramPhy
