import DramPhy.Proofs.Timing.ExactResolution

/-! Resolution over the whole range of counts. The ticks of an access are added up as a
count and then read as an offset, so from half of the range on they stand for a negative
number: cycles and phase make up for that number, and no overflow tells. -/

namespace DramPhy

/-- The ticks from a read command to the end of its CAS latency, with what serializer and
deserializer are off a whole cycle. -/
def CasRow.readTicks (row : CasRow) (request : TimingRequest) : Nat :=
  row.cl + request.commandTicks + request.serializer.ticks + request.deserializer.ticks

def CasRow.writeTicks (row : CasRow) (request : TimingRequest) : Nat :=
  row.cwl + request.commandTicks

/-- The phases lie in a cycle, and cycles and phases make up for the ticks. -/
structure Timing.Balances (timing : Timing) (row : CasRow) (request : TimingRequest) : Prop where
  rdPhase_lt : timing.rdPhase < phasesPerCycle
  wrPhase_lt : timing.wrPhase < phasesPerCycle
  read : (phasesPerCycle * timing.clCycles - timing.rdPhase : Int) = row.readTicks request
  write : (phasesPerCycle * timing.cwlCycles - timing.wrPhase : Int) = row.writeTicks request

variable {cas ticks sum : Nat} {extra : List Nat} {phase cycles p c : Int} {table : CasTable}
  {row : CasRow} {request : TimingRequest} {timing : Timing}

theorem Count.toOffset_eq_self_iff {n : Nat} :
    Count.toOffset n = n ↔ (n : Int) < Offset.limit := by
  constructor
  · intro h
    rw [← h]
    exact Count.toOffset_lt n
  · exact Count.toOffset_of_lt

theorem foldlM_add_eq_ok (h : extra.foldlM Count.add ticks = .ok sum) (hticks : ticks < Count.limit) :
    sum = ticks + extra.sum ∧ sum < Count.limit := by
  induction extra generalizing ticks with
  | nil =>
    obtain rfl := pure_eq_ok.mp h
    exact ⟨rfl, hticks⟩
  | cons x extra ih =>
    rw [List.foldlM_cons, bind_eq_ok] at h
    obtain ⟨_, hadd, hrest⟩ := h
    obtain ⟨hroom, rfl⟩ := Count.add_eq_ok.mp hadd
    rw [List.sum_cons, ← Nat.add_assoc]
    exact ih hrest hroom

/-- An access starts out with the cycles of its CAS latency and the phase that the ticks, read
as an offset, leave of them. -/
theorem accessPhase_eq_ok (h : accessPhase cas extra = .ok (phase, cycles)) :
    0 ≤ cycles ∧ cycles < Offset.limit ∧ cycles * phasesPerCycle < cas + phasesPerCycle ∧
      cas + extra.sum < Count.limit ∧ phase < Offset.limit ∧
      phase = cycles * phasesPerCycle - Count.toOffset (cas + extra.sum) := by
  simp only [accessPhase, wholeCycles, issuePhase, bind_eq_ok, pure_eq_ok, Prod.mk.injEq] at h
  obtain ⟨_, ⟨_, hsum, _, hup, whole, hwhole, rfl⟩, _, hticks, _, ⟨slots, hslots, hphase⟩, rfl, rfl⟩ := h
  obtain ⟨hroom, rfl⟩ := Count.add_eq_ok.mp hsum
  obtain ⟨-, rfl⟩ := Count.sub_eq_ok.mp hup
  obtain ⟨-, rfl⟩ := Count.div_eq_ok.mp hwhole
  obtain ⟨rfl, hcount⟩ := foldlM_add_eq_ok hticks (by omega)
  obtain ⟨-, rfl⟩ := Offset.mul_eq_ok.mp hslots
  obtain ⟨hrange, rfl⟩ := Offset.sub_eq_ok.mp hphase
  have hcycles : Count.toOffset ((cas + phasesPerCycle - 1) / phasesPerCycle) =
      ((cas + phasesPerCycle - 1) / phasesPerCycle : Nat) :=
    Count.toOffset_of_lt (by simp only [phasesPerCycle, Count.limit, Offset.limit] at *; omega)
  have hphases : Count.toOffset phasesPerCycle = phasesPerCycle := Count.toOffset_of_lt (by decide)
  rw [hcycles, hphases] at hrange ⊢
  refine ⟨Int.natCast_nonneg _, ?_, ?_, hcount, hrange.2, rfl⟩
  · simp only [phasesPerCycle, Count.limit, Offset.limit] at *
    omega
  · simp only [phasesPerCycle]
    omega

/-- What an access ends with: cycles and phase that make up for its ticks read as an offset. -/
theorem access_signed (h : accessPhase cas extra = .ok (phase, cycles))
    (hborrow : borrowCycles phasesPerCycle phase cycles = .ok (p, c)) :
    cas + extra.sum < Count.limit ∧
      (phasesPerCycle * Offset.toCount c - Offset.toCount p : Int) =
        Count.toOffset (cas + extra.sum) ∧
      (((cas + extra.sum : Nat) : Int) < Offset.limit → Offset.toCount p < phasesPerCycle) := by
  obtain ⟨hpos, hcycles, hwhole, hcount, hroom, rfl⟩ := accessPhase_eq_ok h
  obtain ⟨hp, hlt, hle, hc, hsum⟩ := borrowCycles_eq_ok (by decide) (by decide)
    (show -Offset.limit ≤ cycles by simp only [Offset.limit]; omega) hcycles hborrow
  have hsmall : p < Offset.limit := by
    rcases Int.lt_or_le (cycles * phasesPerCycle - Count.toOffset (cas + extra.sum)) phasesPerCycle with
      hphase | hphase
    · have := hlt hphase
      simp only [phasesPerCycle, Offset.limit] at *
      omega
    · -- a phase that is not negative borrows nothing
      rw [borrowCycles, if_neg (by simp only [phasesPerCycle] at hphase ⊢; omega), Except.ok.injEq,
        Prod.mk.injEq] at hborrow
      rwa [← hborrow.1]
  have hc0 : 0 ≤ c := by omega
  rw [Offset.toCount_of_nonneg hp hsmall, Offset.toCount_of_nonneg hc0 hc, Int.toNat_of_nonneg hp,
    Int.toNat_of_nonneg hc0, Int.mul_comm]
  refine ⟨hcount, by omega, fun hticks => ?_⟩
  rw [Count.toOffset_of_lt hticks] at hlt
  have := hlt (by omega)
  omega

/-- The equations that a resolved row fulfils whatever its size. -/
theorem resolveRow_signed (h : resolveRow row request = .ok timing) :
    row.readTicks request < Count.limit ∧ row.writeTicks request < Count.limit ∧
      (phasesPerCycle * timing.clCycles - timing.rdPhase : Int) =
        Count.toOffset (row.readTicks request) ∧
      (phasesPerCycle * timing.cwlCycles - timing.wrPhase : Int) =
        Count.toOffset (row.writeTicks request) ∧
      ((row.readTicks request : Int) < Offset.limit → timing.rdPhase < phasesPerCycle) ∧
      ((row.writeTicks request : Int) < Offset.limit → timing.wrPhase < phasesPerCycle) := by
  obtain ⟨_, _, _, _, _, _, _, _, hread, hwrite, hwriteBorrow, hreadBorrow, -, rfl⟩ := resolveRow_eq_ok h
  obtain ⟨hreadCount, hreadSum, hrd⟩ := access_signed hread hreadBorrow
  obtain ⟨hwriteCount, hwriteSum, hwr⟩ := access_signed hwrite hwriteBorrow
  simp only [List.sum_cons, List.sum_nil, Nat.add_zero, ← Nat.add_assoc]
    at hreadCount hreadSum hrd hwriteCount hwriteSum hwr
  exact ⟨hreadCount, hwriteCount, hreadSum, hwriteSum, hrd, hwr⟩

/-- Whatever a request resolves to makes up for its ticks, counted without loss and then read
as offsets. It is right over the unbounded integers exactly when the ticks stay below half of
the range of counts. -/
theorem resolveTiming_balances_iff (h : resolveTiming table request = .ok timing) :
    ∃ row, table.FirstCovering (2 * phasesPerCycle * request.clock) row ∧
      row.readTicks request < Count.limit ∧ row.writeTicks request < Count.limit ∧
      (phasesPerCycle * timing.clCycles - timing.rdPhase : Int) =
        Count.toOffset (row.readTicks request) ∧
      (phasesPerCycle * timing.cwlCycles - timing.wrPhase : Int) =
        Count.toOffset (row.writeTicks request) ∧
      (timing.Balances row request ↔
        row.readTicks request < 2 ^ 63 ∧ row.writeTicks request < 2 ^ 63) := by
  obtain ⟨row, hlookup, hrow⟩ := resolveTiming_eq_ok.mp h
  have hfirst : table.FirstCovering (2 * phasesPerCycle * request.clock) row := by
    by_cases huncovered : table.Uncovered request.clock phasesPerCycle
    · rw [CasTable.lookup_uncovered (by decide) huncovered] at hlookup
      cases hlookup
    · obtain ⟨found, hfound, hfirst⟩ := CasTable.lookup_covered (by decide) huncovered
      rwa [Option.some.inj (Except.ok.inj (hlookup.symm.trans hfound))]
  obtain ⟨hreadCount, hwriteCount, hread, hwrite, hrd, hwr⟩ := resolveRow_signed hrow
  have hhalf : ∀ n : Nat, n < 2 ^ 63 ↔ (n : Int) < Offset.limit := by
    intro n
    simp only [Offset.limit]
    omega
  refine ⟨row, hfirst, hreadCount, hwriteCount, hread, hwrite, ?_⟩
  rw [hhalf, hhalf]
  constructor
  · intro hright
    exact ⟨Count.toOffset_eq_self_iff.mp (hread.symm.trans hright.read),
      Count.toOffset_eq_self_iff.mp (hwrite.symm.trans hright.write)⟩
  · rintro ⟨hreadTicks, hwriteTicks⟩
    exact ⟨hrd hreadTicks, hwr hwriteTicks, hread.trans (Count.toOffset_of_lt hreadTicks),
      hwrite.trans (Count.toOffset_of_lt hwriteTicks)⟩

theorem offset_request_balances : ∃ timing,
    resolveTiming CasTable.mt53e256m16d1 offsetRequest = .ok timing ∧
      timing.Balances ⟨1600000000, 14, 8⟩ offsetRequest := by
  obtain ⟨timing, hresolve, -⟩ : ∃ timing,
      resolveTiming CasTable.mt53e256m16d1 offsetRequest = .ok timing ∧ timing.cl = 14 := by
    decide +kernel
  obtain ⟨row, hfirst, -, -, -, -, hright⟩ := resolveTiming_balances_iff hresolve
  obtain rfl : row = ⟨1600000000, 14, 8⟩ :=
    Option.some.inj ((CasTable.firstCovering_iff.mp hfirst).symm.trans (by decide))
  exact ⟨timing, hresolve, hright.mpr (by decide)⟩

/-- Commands of so many ticks that the sums read as negative. -/
def hugeCommandRequest : TimingRequest := ⟨100000000, Latency.zero 8, Latency.zero 8, 2 ^ 64 - 40⟩

theorem huge_command_wraps : ∃ timing,
    resolveTiming CasTable.mt53e256m16d1 hugeCommandRequest = .ok timing ∧ timing.rdPhase = 42 ∧
      ¬ timing.Balances ⟨1600000000, 14, 8⟩ hugeCommandRequest := by
  obtain ⟨timing, hresolve, hphase⟩ : ∃ timing,
      resolveTiming CasTable.mt53e256m16d1 hugeCommandRequest = .ok timing ∧ timing.rdPhase = 42 := by
    decide +kernel
  refine ⟨timing, hresolve, hphase, fun hright => ?_⟩
  have hlt := hright.rdPhase_lt
  rw [hphase] at hlt
  exact absurd hlt (by decide)

end DramPhy
