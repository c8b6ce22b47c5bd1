import DramPhy.Proofs.Timing.ExactResolution

/-! Tables in ascending order. The first row that covers a data rate is then the closest one,
and a faster clock finds its row no earlier. Where the latencies ascend too, no latency and no
delay of a faster clock is shorter, whichever way the phases move. -/

namespace DramPhy

def CasTable.Ascending (table : CasTable) : Prop :=
  table.Pairwise fun row later => row.maxDataRate ≤ later.maxDataRate

def CasTable.LatenciesAscend (table : CasTable) : Prop :=
  table.Pairwise fun row later => row.cl ≤ later.cl ∧ row.cwl ≤ later.cwl

/-- The first of the rows with the smallest rate that covers a data rate. -/
structure CasTable.Closest (table : CasTable) (rate : Nat) (row : CasRow) : Prop where
  first : table.FirstCovering rate row
  least : ∀ other ∈ table, rate ≤ other.maxDataRate → row.maxDataRate ≤ other.maxDataRate

def TimingRequest.atClock (request : TimingRequest) (clock : Nat) : TimingRequest :=
  { request with clock }

/-- Latencies far enough from the end of the range of counts. -/
structure CasTable.Moderate (table : CasTable) (request : TimingRequest) : Prop where
  rows : ∀ row ∈ table, row.cl < 2 ^ 60 ∧ row.cwl < 2 ^ 60
  commandTicks : request.commandTicks < 2 ^ 60
  serializer : request.serializer.Canonical ∧ request.serializer.cycles < 2 ^ 60
  deserializer : request.deserializer.Canonical ∧ request.deserializer.cycles < 2 ^ 60

/-- No latency of the one timing is above that of the other, and neither is the delay in ticks
of a read or a write. -/
structure Timing.AtMost (timing other : Timing) : Prop where
  cl : timing.cl ≤ other.cl
  cwl : timing.cwl ≤ other.cwl
  readLatency : timing.readLatency ≤ other.readLatency
  writeLatency : timing.writeLatency ≤ other.writeLatency
  readDelay : (phasesPerCycle * timing.readLatency - timing.rdPhase : Int) ≤
    phasesPerCycle * other.readLatency - other.rdPhase
  writeDelay : (phasesPerCycle * timing.writeLatency - timing.wrPhase : Int) ≤
    phasesPerCycle * other.writeLatency - other.wrPhase

variable {table : CasTable} {row later : CasRow} {rate clock phases slow fast : Nat}
  {request : TimingRequest} {timing other : Timing}

instance : Decidable table.Ascending := inferInstanceAs (Decidable (List.Pairwise _ _))

instance : Decidable table.LatenciesAscend := inferInstanceAs (Decidable (List.Pairwise _ _))

/-- Every row that covers the rate comes after the first one that does. -/
theorem CasTable.FirstCovering.rel {R : CasRow → CasRow → Prop}
    (h : table.FirstCovering rate row) (hpairs : table.Pairwise R) (hrefl : R row row)
    (hm : later ∈ table) (hcovers : rate ≤ later.maxDataRate) : R row later := by
  obtain ⟨-, before, after, rfl, hbefore⟩ := h
  have hrows := (List.pairwise_append.mp hpairs).2.1
  rw [List.mem_append, List.mem_cons] at hm
  rcases hm with hm | rfl | hm
  · have hlt := hbefore later hm
    omega
  · exact hrefl
  · exact (List.pairwise_cons.mp hrows).1 later hm

theorem CasTable.FirstCovering.closest (h : table.FirstCovering rate row)
    (hascending : table.Ascending) : table.Closest rate row :=
  ⟨h, fun _ hm hcovers => h.rel hascending (Nat.le_refl _) hm hcovers⟩

theorem CasTable.FirstCovering.covers (h : table.FirstCovering rate row) :
    rate ≤ row.maxDataRate :=
  h.1

theorem CasTable.lookup_closest (hascending : table.Ascending) (hclock : clock ≠ 0)
    (hphases : 2 * phases < Count.limit) (hrate : 2 * phases * clock < Count.limit) :
    ∃ found, table.lookup clock phases = .ok found ∧
      (∀ row, found = some row ↔ table.Closest (2 * phases * clock) row) ∧
      (found = none ↔ ∀ row ∈ table, row.maxDataRate < 2 * phases * clock) := by
  have hlookup := table.lookup_ok hphases hclock
  rw [if_pos hrate] at hlookup
  refine ⟨_, hlookup, fun row => ?_, ?_⟩
  · rw [← CasTable.firstCovering_iff]
    constructor
    · intro h
      exact h.closest hascending
    · intro h
      exact h.first
  · simp [List.find?_eq_none]

theorem CasTable.firstCovering_of_lookup (hphases : 2 * phases < Count.limit)
    (h : table.lookup clock phases = .ok (some row)) :
    2 * phases * clock < Count.limit ∧ table.FirstCovering (2 * phases * clock) row := by
  have hcovered : ¬ table.Uncovered clock phases := by
    intro huncovered
    rw [CasTable.lookup_uncovered hphases huncovered] at h
    cases h
  obtain ⟨found, hfound, hfirst⟩ := CasTable.lookup_covered hphases hcovered
  rw [h, Except.ok.injEq, Option.some.injEq] at hfound
  rw [hfound]
  simp only [CasTable.Uncovered, not_or, Nat.not_le] at hcovered
  exact ⟨hcovered.2.1, hfirst⟩

section

variable (hmoderate : table.Moderate request)

include hmoderate

theorem CasTable.Moderate.atClock (clock : Nat) : table.Moderate (request.atClock clock) :=
  ⟨hmoderate.rows, hmoderate.commandTicks, hmoderate.serializer, hmoderate.deserializer⟩

theorem CasTable.Moderate.row_solves (hm : row ∈ table)
    (hpos : row.cwl + request.commandTicks ≠ 0) :
    ∃ timing, resolveRow row request = .ok timing ∧ timing.Solves row request := by
  obtain ⟨hcl, hcwl⟩ := hmoderate.rows row hm
  exact resolveRow_solves hcl hcwl hmoderate.commandTicks hmoderate.serializer.1
    hmoderate.serializer.2 hmoderate.deserializer.1 hmoderate.deserializer.2 hpos

theorem CasTable.Moderate.timing_solves (h : resolveTiming table request = .ok timing) :
    ∃ row, 2 * phasesPerCycle * request.clock < Count.limit ∧
      table.FirstCovering (2 * phasesPerCycle * request.clock) row ∧ timing.Solves row request := by
  obtain ⟨row, hlookup, hrow⟩ := resolveTiming_eq_ok.mp h
  obtain ⟨hrate, hfirst⟩ := CasTable.firstCovering_of_lookup (by decide) hlookup
  obtain ⟨hcl, hcwl⟩ := hmoderate.rows row hfirst.mem
  refine ⟨row, hrate, hfirst, ?_⟩
  by_cases hnone : row.cwl + request.commandTicks = 0
  · rw [resolveRow_negative hcl hcwl hmoderate.commandTicks hmoderate.serializer.1
      hmoderate.serializer.2 hmoderate.deserializer.1 hmoderate.deserializer.2 hnone] at hrow
    cases hrow
  · obtain ⟨solved, hsolved, hsolves⟩ := hmoderate.row_solves hfirst.mem hnone
    rwa [Except.ok.inj (hrow.symm.trans hsolved)]

end

/-- The rows alone order the timings: the ticks of the request are the same for both. -/
theorem Timing.Solves.atMost {request request' : TimingRequest} (h : timing.Solves row request)
    (h' : other.Solves later request') (hcl : row.cl ≤ later.cl) (hcwl : row.cwl ≤ later.cwl)
    (hticks : request.commandTicks = request'.commandTicks)
    (hser : request.serializer = request'.serializer)
    (hdes : request.deserializer = request'.deserializer) : timing.AtMost other := by
  have hread := h.read
  have hwrite := h.write
  have hreadLatency := h.readLatency
  have hread' := h'.read
  have hwrite' := h'.write
  have hreadLatency' := h'.readLatency
  have hrd := h.rdPhase_lt
  have hwr := h.wrPhase_lt
  rw [hticks, hser, hdes] at hread
  rw [hticks] at hwrite
  rw [hser, hdes] at hreadLatency
  simp only [phasesPerCycle] at hread hwrite hread' hwrite' hrd hwr
  -- a later row takes at least as many ticks, and its phase is less than a cycle
  have hreadCycles : timing.clCycles ≤ other.clCycles := by omega
  have hwriteCycles : timing.cwlCycles ≤ other.cwlCycles := by omega
  constructor
  case cl => rwa [h.cl, h'.cl]
  case cwl => rwa [h.cwl, h'.cwl]
  case readLatency => omega
  case writeLatency => rwa [h.writeLatency, h'.writeLatency]
  case readDelay =>
    simp only [phasesPerCycle]
    omega
  case writeDelay =>
    simp only [h.writeLatency, h'.writeLatency, phasesPerCycle]
    omega

theorem CasTable.FirstCovering.exists_slower (h : table.FirstCovering (2 * phases * fast) later)
    (hle : slow ≤ fast) (hslow : slow ≠ 0) (hphases : 2 * phases < Count.limit)
    (hrate : 2 * phases * fast < Count.limit) :
    ∃ row, table.lookup slow phases = .ok (some row) ∧
      table.FirstCovering (2 * phases * slow) row := by
  have hrates : 2 * phases * slow ≤ 2 * phases * fast := Nat.mul_le_mul_left _ hle
  refine CasTable.lookup_covered hphases fun huncovered => ?_
  have hcovers := h.covers
  rcases huncovered with hzero | hlimit | hnone
  · exact hslow hzero
  · omega
  · have hlt := hnone later h.mem
    omega

/-- A lookup in an ascending table gives the closest row. Along a table whose latencies ascend as
well, whatever resolves for a clock does so for a slower one, to no longer latencies and delays,
unless its row leaves a write without ticks. -/
theorem slower_clock_no_longer (hascending : table.Ascending) :
    (∀ clock phases, clock ≠ 0 → 2 * phases < Count.limit → 2 * phases * clock < Count.limit →
      ∃ found, table.lookup clock phases = .ok found ∧
        (∀ row, found = some row ↔ table.Closest (2 * phases * clock) row) ∧
        (found = none ↔ ∀ row ∈ table, row.maxDataRate < 2 * phases * clock)) ∧
    (table.LatenciesAscend → ∀ request, table.Moderate request →
      ∀ slow fast, 0 < slow → slow ≤ fast → ∀ other,
        resolveTiming table (request.atClock fast) = .ok other →
        ∃ row, table.Closest (2 * phasesPerCycle * slow) row ∧
          (0 < request.commandTicks ∨ 0 < row.cwl →
            ∃ timing, resolveTiming table (request.atClock slow) = .ok timing) ∧
          ∀ timing, resolveTiming table (request.atClock slow) = .ok timing →
            timing.AtMost other) := by
  refine ⟨fun clock phases => CasTable.lookup_closest hascending,
    fun hlatencies request hmoderate slow fast hslow hle other hother => ?_⟩
  obtain ⟨later, hrate, hlater, hsolves'⟩ := (hmoderate.atClock fast).timing_solves hother
  obtain ⟨row, hlookup, hrow⟩ := hlater.exists_slower hle (by omega) (by decide) hrate
  have hrates : 2 * phasesPerCycle * slow ≤ 2 * phasesPerCycle * fast := Nat.mul_le_mul_left _ hle
  have hcovers := hlater.covers
  obtain ⟨hcl, hcwl⟩ := hrow.rel hlatencies ⟨Nat.le_refl _, Nat.le_refl _⟩ hlater.mem
    (Nat.le_trans hrates hcovers)
  refine ⟨row, hrow.closest hascending, fun hpos => ?_, fun timing htiming => ?_⟩
  · obtain ⟨timing, htiming, -⟩ := (hmoderate.atClock slow).row_solves hrow.mem
      (by simp only [TimingRequest.atClock]; omega)
    exact ⟨timing, resolveTiming_eq_ok.mpr ⟨row, hlookup, htiming⟩⟩
  · obtain ⟨found, -, hfirst, hsolves⟩ := (hmoderate.atClock slow).timing_solves htiming
    obtain rfl : found = row := Option.some.inj
      ((CasTable.firstCovering_iff.mp hfirst).symm.trans (CasTable.firstCovering_iff.mp hrow))
    exact hsolves.atMost hsolves' hcl hcwl rfl rfl rfl

/-- Requests with ticks in the serializer for which a slower clock moves the read phase up. -/
def serializedRequest : TimingRequest := ⟨0, ⟨0, 3⟩, ⟨0, 0⟩, 4⟩

theorem slower_clock_moves_phase_up : ∃ timing other,
    resolveTiming CasTable.mt53e256m16d1 (serializedRequest.atClock 66625000) = .ok timing ∧
    resolveTiming CasTable.mt53e256m16d1 (serializedRequest.atClock 100000000) = .ok other ∧
    timing.rdPhase = 7 ∧ other.rdPhase = 3 ∧ timing.AtMost other := by
  obtain ⟨other, hother, hphase'⟩ : ∃ other,
      resolveTiming CasTable.mt53e256m16d1 (serializedRequest.atClock 100000000) = .ok other ∧
        other.rdPhase = 3 := by
    decide +kernel
  have hmoderate : CasTable.mt53e256m16d1.Moderate serializedRequest :=
    ⟨by decide, by decide, by decide, by decide⟩
  obtain ⟨-, hslower⟩ :=
    slower_clock_no_longer (show CasTable.mt53e256m16d1.Ascending by decide)
  obtain ⟨row, -, hresolves, hatMost⟩ := hslower (by decide) serializedRequest hmoderate 66625000
    100000000 (by decide) (by decide) other hother
  obtain ⟨timing, htiming⟩ := hresolves (.inl (by decide))
  obtain ⟨found, hfound, hphase⟩ : ∃ timing,
      resolveTiming CasTable.mt53e256m16d1 (serializedRequest.atClock 66625000) = .ok timing ∧
        timing.rdPhase = 7 := by
    decide +kernel
  obtain rfl : found = timing := Except.ok.inj (hfound.symm.trans htiming)
  exact ⟨found, other, hfound, hother, hphase, hphase', hatMost found hfound⟩

end DramPhy
