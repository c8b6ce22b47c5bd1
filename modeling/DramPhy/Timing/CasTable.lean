import DramPhy.Count

/-! CAS latencies by data rate. A row holds for all rates up to its own, so the
row of a clock is the first one that covers its data rate. -/

namespace DramPhy

structure CasRow where
  maxDataRate : Nat
  cl : Nat
  cwl : Nat
  deriving DecidableEq

/-- Rows in ascending order of data rate. -/
abbrev CasTable := List CasRow

/-- MT53E256M16D1 without DBI, latency set A. -/
def CasTable.mt53e256m16d1 : CasTable :=
  [⟨532000000, 6, 4⟩, ⟨1066000000, 10, 6⟩, ⟨1600000000, 14, 8⟩, ⟨2132000000, 20, 10⟩,
   ⟨2666000000, 24, 12⟩, ⟨3200000000, 28, 14⟩, ⟨3732000000, 32, 16⟩, ⟨4266000000, 36, 18⟩]

/-- The row for a controller clock with the given number of phases per cycle, two
data beats to a phase. A stopped clock has no row, and neither has a data rate
that is no count. -/
def CasTable.lookup (table : CasTable) (clock phases : Nat) : Checked (Option CasRow) :=
  if clock = 0 then
    .ok none
  else do
    let beats ← Count.mul 2 phases
    return if beats * clock < Count.limit then
      table.find? fun row => decide (beats * clock ≤ row.maxDataRate)
    else
      none

end DramPhy
