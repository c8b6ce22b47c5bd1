import DramPhy.Proofs.Timing.Access
import DramPhy.Proofs.Timing.LatencyTicks

/-! What a timing request resolves to. The table settles the row, and the row leaves
one timing: the fewest whole cycles that cover the ticks of an access, with a phase
for what they are too many. Only a write without any ticks has none. -/

namespace DramPhy

/-- The first row of a table that covers a data rate. -/
def CasTable.FirstCovering (table : CasTable) (rate : Nat) (row : CasRow) : Prop :=
  rate ≤ row.maxDataRate ∧
    ∃ before after, table = before ++ row :: after ∧ ∀ r ∈ before, r.maxDataRate < rate

/-- A clock that the rows of a table leave out: it stands still, its data rate is no
count, or it is too fast for every row. -/
def CasTable.Uncovered (table : CasTable) (clock phases : Nat) : Prop :=
  clock = 0 ∨ Count.limit ≤ 2 * phases * clock ∨
    ∀ row ∈ table, row.maxDataRate < 2 * phases * clock

/-- A timing whose cycles and phases make up for the ticks of a row and a request. -/
structure Timing.Solves (timing : Timing) (row : CasRow) (request : TimingRequest) : Prop where
  cl : timing.cl = row.cl
  cwl : timing.cwl = row.cwl
  commandTicks : timing.commandTicks = request.commandTicks
  rdPhase_lt : timing.rdPhase < phasesPerCycle
  wrPhase_lt : timing.wrPhase < phasesPerCycle
  read : (phasesPerCycle * timing.clCycles - timing.rdPhase : Int) =
    row.cl + request.commandTicks + request.serializer.ticks + request.deserializer.ticks
  write : (phasesPerCycle * timing.cwlCycles - timing.wrPhase : Int) =
    row.cwl + request.commandTicks
  readLatency : timing.readLatency =
    2 + request.serializer.cycles + request.deserializer.cycles + timing.clCycles
  writeLatency : timing.writeLatency = timing.cwlCycles
  writeTap : (timing.writeTap : Int) = timing.writeLatency - 1

section

variable {table : CasTable} {clock phases rate : Nat} {row : CasRow}

instance : Decidable (table.Uncovered clock phases) :=
  inferInstanceAs (Decidable (_ ∨ _ ∨ _))

theorem CasTable.firstCovering_iff : table.FirstCovering rate row ↔
    (table.find? fun row => decide (rate ≤ row.maxDataRate)) = some row := by
  simp [CasTable.FirstCovering, List.find?_eq_some_iff_append]

theorem CasTable.FirstCovering.mem (h : table.FirstCovering rate row) : row ∈ table :=
  List.mem_of_find?_eq_some (CasTable.firstCovering_iff.mp h)

theorem CasTable.lookup_ok (hphases : 2 * phases < Count.limit) (hclock : clock ≠ 0) :
    table.lookup clock phases = .ok (if 2 * phases * clock < Count.limit then
      table.find? fun row => decide (2 * phases * clock ≤ row.maxDataRate) else none) := by
  have hbeats : Count.mul 2 phases = .ok (2 * phases) := Count.mul_eq_ok.mpr ⟨hphases, rfl⟩
  rw [CasTable.lookup, if_neg hclock, hbeats, ok_bind]
  rfl

theorem CasTable.lookup_mem (h : table.lookup clock phases = .ok (some row)) : row ∈ table := by
  rw [CasTable.lookup] at h
  split_ifs at h
  · cases h
  · simp only [bind_eq_ok, pure_eq_ok] at h
    obtain ⟨_, -, hfind⟩ := h
    split_ifs at hfind
    exact List.mem_of_find?_eq_some hfind

theorem CasTable.lookup_uncovered (hphases : 2 * phases < Count.limit)
    (h : table.Uncovered clock phases) : table.lookup clock phases = .ok none := by
  by_cases hclock : clock = 0
  · rw [CasTable.lookup, if_pos hclock]
  · rw [CasTable.lookup_ok hphases hclock]
    rcases h with h | h | h
    · exact absurd h hclock
    · rw [if_neg (by omega)]
    · rw [List.find?_eq_none.mpr fun row hm => by simpa using h row hm, ite_self]

theorem CasTable.lookup_covered (hphases : 2 * phases < Count.limit)
    (h : ¬ table.Uncovered clock phases) :
    ∃ row, table.lookup clock phases = .ok (some row) ∧
      table.FirstCovering (2 * phases * clock) row := by
  simp only [CasTable.Uncovered, not_or, not_forall, Nat.not_lt, Nat.not_le] at h
  obtain ⟨hclock, hrate, some, hm, hcovers⟩ := h
  cases hfind : table.find? fun row => decide (2 * phases * clock ≤ row.maxDataRate) with
  | none =>
    have := List.find?_eq_none.mp hfind some hm
    simp [hcovers] at this
  | some row =>
    refine ⟨row, ?_, CasTable.firstCovering_iff.mpr hfind⟩
    rw [CasTable.lookup_ok hphases hclock, if_pos hrate, hfind]

theorem Timing.Solves.unique {a b : Timing} {request : TimingRequest} (ha : a.Solves row request)
    (hb : b.Solves row request) : a = b := by
  cases a
  cases b
  cases ha
  cases hb
  simp only [phasesPerCycle, Timing.mk.injEq] at *
  omega

end

/-- The four sums of a read latency, if the last of them is a count. -/
theorem readLatency_ok {ser des cl : Nat} (h : 2 + ser + des + cl < Count.limit) :
    Count.add commandCycles ser = .ok (1 + ser) ∧ Count.add (1 + ser) cl = .ok (1 + ser + cl) ∧
      Count.add des slipCycles = .ok (des + 1) ∧
      Count.add (1 + ser + cl) (des + 1) = .ok (2 + ser + des + cl) := by
  rw [commandCycles, slipCycles]
  exact ⟨Count.add_eq_ok.mpr ⟨by omega, rfl⟩, Count.add_eq_ok.mpr ⟨by omega, rfl⟩,
    Count.add_eq_ok.mpr ⟨by omega, rfl⟩, Count.add_eq_ok.mpr ⟨by omega, by omega⟩⟩

section

variable {row : CasRow} {request : TimingRequest} (hcl : row.cl < 2 ^ 60) (hcwl : row.cwl < 2 ^ 60)
  (hticks : request.commandTicks < 2 ^ 60) (hser : request.serializer.Canonical)
  (hserCycles : request.serializer.cycles < 2 ^ 60) (hdes : request.deserializer.Canonical)
  (hdesCycles : request.deserializer.cycles < 2 ^ 60)

include hcl hcwl hticks hser hserCycles hdes hdesCycles

/-- A row resolves to cycles and phases in range, and is rejected exactly when no cycle is
left for the write. -/
theorem resolveRow_eq : ∃ rd wr cl cwl : Nat, rd < phasesPerCycle ∧ wr < phasesPerCycle ∧
    phasesPerCycle * cl = rd + (row.cl + (request.commandTicks + (request.serializer.ticks +
      request.deserializer.ticks))) ∧
    phasesPerCycle * cwl = wr + (row.cwl + request.commandTicks) ∧
    resolveRow row request = if cwl = 0 then .error (.rejected (.negativeTap (-1) 0)) else .ok {
      cl := row.cl
      cwl := row.cwl
      clCycles := cl
      cwlCycles := cwl
      rdPhase := rd
      wrPhase := wr
      readLatency := 2 + request.serializer.cycles + request.deserializer.cycles + cl
      writeLatency := cwl
      commandTicks := request.commandTicks
      writeTap := cwl - 1 } := by
  simp only [Latency.Canonical, phasesPerCycle] at hser hdes
  obtain ⟨_, _, rd, cl, hread, hreadBorrow, hrd, hclLimit, hreadSum⟩ := access_ok row.cl
    [request.commandTicks, request.serializer.ticks, request.deserializer.ticks]
    (by simp only [List.sum_cons, List.sum_nil, phasesPerCycle, Offset.limit]; omega)
  obtain ⟨_, _, wr, cwl, hwrite, hwriteBorrow, hwr, hcwlLimit, hwriteSum⟩ :=
    access_ok row.cwl [request.commandTicks]
      (by simp only [List.sum_cons, List.sum_nil, phasesPerCycle, Offset.limit]; omega)
  simp only [List.sum_cons, List.sum_nil, Nat.add_zero] at hreadSum hwriteSum
  have hsmall : cl < 2 ^ 60 ∧ (rd : Int) < Offset.limit ∧ (wr : Int) < Offset.limit := by
    simp only [phasesPerCycle, Offset.limit] at *
    omega
  obtain ⟨hserializer, hpads, hdeserializer, hlatency⟩ := readLatency_ok
    (show 2 + request.serializer.cycles + request.deserializer.cycles + cl < Count.limit by
      simp only [Count.limit]
      omega)
  have htap : Offset.sub cwl 1 = .ok ((cwl : Int) - 1) :=
    Offset.sub_eq_ok.mpr ⟨by simp only [Offset.limit] at *; omega, rfl⟩
  refine ⟨rd, wr, cl, cwl, hrd, hwr, hreadSum, hwriteSum, ?_⟩
  simp only [resolveRow, hread, hwrite, hreadBorrow, hwriteBorrow, hserializer, hdeserializer, htap,
    Offset.toCount_natCast hclLimit, Offset.toCount_natCast hcwlLimit, hpads, hlatency, Checked.build,
    Except.mapError, ok_bind]
  cases cwl with
  | zero => rfl
  | succ tap =>
    have hcast : ((tap + 1 : Nat) : Int) - 1 = tap := by omega
    rw [hcast, if_neg (by omega), if_neg (by omega), Offset.toCount_natCast hsmall.2.1,
      Offset.toCount_natCast hsmall.2.2, Offset.toCount_natCast (by omega)]
    rfl

theorem resolveRow_negative (hnone : row.cwl + request.commandTicks = 0) :
    resolveRow row request = .error (.rejected (.negativeTap (-1) 0)) := by
  obtain ⟨_, _, _, cwl, -, hwr, -, hwrite, heq⟩ :=
    resolveRow_eq hcl hcwl hticks hser hserCycles hdes hdesCycles
  simp only [phasesPerCycle] at hwr hwrite
  rw [heq, if_pos (show cwl = 0 by omega)]

theorem resolveRow_solves (hpos : row.cwl + request.commandTicks ≠ 0) :
    ∃ timing, resolveRow row request = .ok timing ∧ timing.Solves row request := by
  obtain ⟨rd, wr, cl, cwl, hrd, hwr, hread, hwrite, heq⟩ :=
    resolveRow_eq hcl hcwl hticks hser hserCycles hdes hdesCycles
  have hcycles : cwl ≠ 0 := by
    rintro rfl
    omega
  rw [if_neg hcycles] at heq
  simp only [phasesPerCycle] at hread hwrite
  refine ⟨_, heq, rfl, rfl, rfl, hrd, hwr, ?_, ?_, rfl, rfl, ?_⟩ <;> simp only [phasesPerCycle] <;> omega

end

/-- A request of moderate latencies resolves to the one timing that its row and its ticks
leave, and is turned down for an uncovered clock or for a write without ticks alone. -/
theorem resolveTiming_exact {table : CasTable} {request : TimingRequest}
    (hrows : ∀ row ∈ table, row.cl < 2 ^ 60 ∧ row.cwl < 2 ^ 60)
    (hticks : request.commandTicks < 2 ^ 60) (hser : request.serializer.Canonical)
    (hserCycles : request.serializer.cycles < 2 ^ 60) (hdes : request.deserializer.Canonical)
    (hdesCycles : request.deserializer.cycles < 2 ^ 60) :
    (∀ fault, resolveTiming table request ≠ .error (.faulted fault)) ∧
    (∀ clock rate, resolveTiming table request = .error (.rejected (.unsupportedTiming clock rate)) ↔
      table.Uncovered request.clock phasesPerCycle ∧ clock = request.clock ∧
        rate = shownDataRate request.clock) ∧
    (¬ table.Uncovered request.clock phasesPerCycle →
      ∃ row, table.FirstCovering (2 * phasesPerCycle * request.clock) row ∧
        (∀ tap cycles, resolveTiming table request = .error (.rejected (.negativeTap tap cycles)) ↔
          row.cwl + request.commandTicks = 0 ∧ tap = -1 ∧ cycles = 0) ∧
        (row.cwl + request.commandTicks ≠ 0 →
          ∃ timing, resolveTiming table request = .ok timing ∧
            ∀ other : Timing, other.Solves row request ↔ other = timing)) := by
  by_cases huncovered : table.Uncovered request.clock phasesPerCycle
  · have hresolve : resolveTiming table request =
        .error (.rejected (.unsupportedTiming request.clock (shownDataRate request.clock))) := by
      rw [resolveTiming, CasTable.lookup_uncovered (by decide) huncovered]
      rfl
    refine ⟨by simp [hresolve], fun clock rate => ?_, fun h => absurd huncovered h⟩
    rw [hresolve]
    simp [huncovered, eq_comm]
  obtain ⟨row, hlookup, hfirst⟩ := CasTable.lookup_covered (by decide) huncovered
  obtain ⟨hcl, hcwl⟩ := hrows row hfirst.mem
  have hresolve : resolveTiming table request = resolveRow row request := by
    rw [resolveTiming, hlookup]
    rfl
  by_cases hnone : row.cwl + request.commandTicks = 0
  · have hrow := resolveRow_negative hcl hcwl hticks hser hserCycles hdes hdesCycles hnone
    rw [hresolve, hrow]
    refine ⟨by simp, by simp [huncovered], fun _ => ⟨row, hfirst, fun tap cycles => ?_, ?_⟩⟩
    · simp [hnone, eq_comm]
    · exact fun h => absurd hnone h
  · obtain ⟨timing, hrow, hsolves⟩ :=
      resolveRow_solves hcl hcwl hticks hser hserCycles hdes hdesCycles hnone
    rw [hresolve, hrow]
    refine ⟨by simp, by simp [huncovered], fun _ => ⟨row, hfirst, fun tap cycles => ?_, fun _ => ?_⟩⟩
    · exact iff_of_false (by simp) fun h => hnone h.1
    · refine ⟨timing, rfl, fun other => ⟨fun h => h.unique hsolves, ?_⟩⟩
      rintro rfl
      exact hsolves

/-- A table out of order: the first row that covers a rate is not the closest one. -/
def shuffledTable : CasTable := [⟨532000000, 6, 4⟩, ⟨4266000000, 36, 18⟩, ⟨1600000000, 14, 8⟩]

/-- 100 MHz, with ticks in the serializer and the deserializer that carry into a cycle. -/
def offsetRequest : TimingRequest := ⟨100000000, ⟨1, 5⟩, ⟨2, 7⟩, 4⟩

theorem first_covering_row_resolves : ∃ timing, resolveTiming shuffledTable offsetRequest = .ok timing ∧
    timing.Solves ⟨4266000000, 36, 18⟩ offsetRequest ∧ timing.clCycles = 7 ∧ timing.rdPhase = 4 := by
  obtain ⟨-, -, hcovered⟩ := resolveTiming_exact
    (show ∀ row ∈ shuffledTable, row.cl < 2 ^ 60 ∧ row.cwl < 2 ^ 60 by decide)
    (show offsetRequest.commandTicks < 2 ^ 60 by decide) (by decide) (by decide) (by decide) (by decide)
  obtain ⟨row, hfirst, -, hsolved⟩ := hcovered (by decide)
  obtain rfl : row = ⟨4266000000, 36, 18⟩ :=
    Option.some.inj ((CasTable.firstCovering_iff.mp hfirst).symm.trans (by decide))
  obtain ⟨timing, hresolve, hunique⟩ := hsolved (by decide)
  have hsolves := (hunique timing).mpr rfl
  have hread := hsolves.read
  have hphase := hsolves.rdPhase_lt
  simp only [phasesPerCycle, offsetRequest] at hread hphase
  exact ⟨timing, hresolve, hsolves, by omega, by omega⟩

end DramPhy
