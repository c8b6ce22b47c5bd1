import DramPhy.Proofs.HalfRate.Refinement
import DramPhy.Proofs.Timing.ExactResolution

/-! What a 2:1 stage does to the settings of a PHY. It adds whole cycles to the serializer
and the deserializer, so phases and write latency stay as they are, and the read latency
grows by these cycles. A PHY behind it is built whenever the plain one is. -/

namespace DramPhy

def TimingRequest.behind (request : TimingRequest) (m n : Nat) : TimingRequest :=
  { request with
    serializer := ⟨request.serializer.cycles + m, request.serializer.ticks⟩
    deserializer := ⟨request.deserializer.cycles + n, request.deserializer.ticks⟩ }

def PhyConfig.behind (config : PhyConfig) (m n : Nat) : PhyConfig :=
  { config with
    serializer := ⟨config.serializer.cycles + m, config.serializer.ticks⟩
    deserializer := ⟨config.deserializer.cycles + n, config.deserializer.ticks⟩ }

def Timing.later (timing : Timing) (cycles : Nat) : Timing :=
  { timing with readLatency := timing.readLatency + cycles }

def Settings.later (settings : Settings) (cycles : Nat) : Settings :=
  { settings with timing := settings.timing.later cycles }

section

variable {row : CasRow} {table : CasTable} {request : TimingRequest} {m n : Nat}
  (hser : request.serializer.Canonical) (hdes : request.deserializer.Canonical)
  (hticks : request.commandTicks < 2 ^ 60)
  (hroom : request.serializer.cycles + m + (request.deserializer.cycles + n) < 2 ^ 62)

include hser hdes hticks hroom

/-- Whole cycles of serializer and deserializer have no part in anything but the read latency. -/
theorem resolveRow_behind (hcl : row.cl < 2 ^ 60) :
    resolveRow row (request.behind m n) = (resolveRow row request).map (·.later (m + n)) := by
  simp only [Latency.Canonical, phasesPerCycle] at hser hdes
  obtain ⟨_, _, rd, cl, hread, hborrow, -, hlimit, -⟩ := access_ok row.cl
    [request.commandTicks, request.serializer.ticks, request.deserializer.ticks]
    (by simp only [List.sum_cons, List.sum_nil, phasesPerCycle, Offset.limit]; omega)
  simp only [Offset.limit] at hlimit
  obtain ⟨hserializer, hpads, hdeserializer, hlatency⟩ := readLatency_ok
    (show 2 + request.serializer.cycles + request.deserializer.cycles + cl < Count.limit by
      simp only [Count.limit]
      omega)
  obtain ⟨hserializer', hpads', hdeserializer', hlatency'⟩ := readLatency_ok
    (show 2 + (request.serializer.cycles + m) + (request.deserializer.cycles + n) + cl <
      Count.limit by
        simp only [Count.limit]
        omega)
  have hsum : 2 + (request.serializer.cycles + m) + (request.deserializer.cycles + n) + cl =
      2 + request.serializer.cycles + request.deserializer.cycles + cl + (m + n) := by omega
  simp only [resolveRow, TimingRequest.behind, hread, hborrow, hserializer, hdeserializer,
    hserializer', hdeserializer', hpads, hpads', hlatency, hlatency', hsum,
    Offset.toCount_natCast (show (cl : Int) < Offset.limit from hlimit), Checked.build,
    Except.mapError, ok_bind]
  -- the write side is the same computation on both sides
  rcases accessPhase row.cwl [request.commandTicks] with _ | ⟨wr, cwl⟩
  · rfl
  simp only [ok_bind]
  rcases borrowCycles phasesPerCycle wr cwl with _ | ⟨wr', cwl'⟩
  · rfl
  simp only [ok_bind]
  rcases Offset.sub cwl' 1 with _ | tap
  · rfl
  simp only [ok_bind]
  split_ifs <;> rfl

theorem resolveTiming_behind (hrows : ∀ row ∈ table, row.cl < 2 ^ 60) :
    resolveTiming table (request.behind m n) =
      (resolveTiming table request).map (·.later (m + n)) := by
  have hclock : (request.behind m n).clock = request.clock := rfl
  rw [resolveTiming, resolveTiming, hclock]
  rcases hlookup : table.lookup request.clock phasesPerCycle with _ | _ | row
  · rfl
  · rfl
  · exact resolveRow_behind hser hdes hticks hroom (hrows row (CasTable.lookup_mem hlookup))

end

variable {config : PhyConfig} {table : CasTable} {settings : Settings} {e : BuildFailure} {m n : Nat}

theorem settings_behind (hrows : ∀ row ∈ table, row.cl < 2 ^ 60)
    (hticks : config.commandTicks < 2 ^ 60) (hser : config.serializer.Canonical)
    (hdes : config.deserializer.Canonical)
    (hroom : config.serializer.cycles + m + (config.deserializer.cycles + n) < 2 ^ 62) :
    (config.behind m n).settings table = (config.settings table).map (·.later (m + n)) := by
  have htiming : resolveTiming table (config.timingRequest.behind m n) =
      (resolveTiming table config.timingRequest).map (·.later (m + n)) :=
    resolveTiming_behind hser hdes hticks hroom hrows
  have hrequest : (config.behind m n).timingRequest = config.timingRequest.behind m n := rfl
  have hvalid : (config.behind m n).validate = config.validate := rfl
  rw [PhyConfig.settings, PhyConfig.settings, hvalid, hrequest, htiming]
  rcases config.validate with _ | _
  · rfl
  · simp only [Except.mapError, ok_bind]
    rcases resolveTiming table config.timingRequest with _ | _ <;> rfl

/-- Only its settings can keep a PHY from being built. -/
theorem Phy.build_of_settings (h : config.settings table = .ok settings) :
    ∃ p, Phy.build config table = .ok p ∧ p.settings = settings := by
  obtain ⟨row, -, hrow⟩ := resolveTiming_eq_ok.mp (settings_eq_ok h).2
  have hpos : 1 ≤ settings.timing.readLatency := by
    obtain ⟨_, _, _, _, _, _, _, _, -, -, -, -, -, htiming⟩ := resolveRow_eq_ok hrow
    simp only [htiming, commandCycles]
    omega
  obtain ⟨p, hp, hfollows, -⟩ := Phy.initial_ok config hpos (resolveRow_tap hrow)
  refine ⟨p, ?_, hfollows.settings_eq⟩
  rw [Phy.build, h, ok_bind, hp]
  rfl

theorem PhyConfig.behindStage_ok (hser : config.serializer.Canonical)
    (hserCycles : config.serializer.cycles < 2 ^ 60) (hdes : config.deserializer.Canonical)
    (hdesCycles : config.deserializer.cycles < 2 ^ 60) :
    config.behindStage = .ok (config.behind serializerCycles deserializerCycles) := by
  have hadd : ∀ (l : PhyLatency) (cycles : Nat), l.Canonical → l.cycles + cycles < Count.limit →
      l.add ⟨cycles, 0⟩ = .ok ⟨l.cycles + cycles, l.ticks⟩ := by
    intro l cycles hl hroom
    have hlt : l.ticks < phasesPerCycle := hl
    have hcycles : Count.add l.cycles cycles = .ok (l.cycles + cycles) := Count.add_eq_ok.mpr ⟨hroom, rfl⟩
    have hticks : Count.add l.ticks 0 = .ok l.ticks :=
      Count.add_eq_ok.mpr ⟨by simp only [phasesPerCycle, Count.limit] at *; omega, rfl⟩
    rw [Latency.add, hcycles, ok_bind, hticks, ok_bind, Latency.make_eq_ok,
      Nat.div_eq_of_lt hlt, Nat.mod_eq_of_lt hlt]
    exact ⟨by decide, hroom, rfl⟩
  have hsent : Latency.ofCycles phasesPerCycle serializerCycles = .ok ⟨serializerCycles, 0⟩ := rfl
  have hreceived : Latency.ofCycles phasesPerCycle deserializerCycles = .ok ⟨deserializerCycles, 0⟩ := rfl
  rw [PhyConfig.behindStage, hsent, ok_bind,
    hadd _ _ hser (by simp only [serializerCycles, Count.limit]; omega), ok_bind, hreceived, ok_bind,
    hadd _ _ hdes (by simp only [deserializerCycles, Count.limit]; omega), ok_bind]
  rfl

/-- A PHY behind a 2:1 stage is built exactly when the plain one is, and its settings are
those of the plain one but for the cycles of the stage. -/
theorem HalfRatePhy.build_settings (hrows : ∀ row ∈ table, row.cl < 2 ^ 60)
    (hticks : config.commandTicks < 2 ^ 60) (hser : config.serializer.Canonical)
    (hserCycles : config.serializer.cycles < 2 ^ 60) (hdes : config.deserializer.Canonical)
    (hdesCycles : config.deserializer.cycles < 2 ^ 60) :
    (∃ e, HalfRatePhy.build config table = .error e ∧ Phy.build config table = .error e) ∨
      ∃ start p, HalfRatePhy.build config table = .ok start ∧ Phy.build config table = .ok p ∧
        start.inner.settings = p.settings.later 3 := by
  have hbehind := settings_behind (m := serializerCycles) (n := deserializerCycles) hrows hticks hser
    hdes (by simp only [serializerCycles, deserializerCycles]; omega)
  have hinner := PhyConfig.behindStage_ok hser hserCycles hdes hdesCycles
  cases hsettings : config.settings table with
  | error e =>
    rw [hsettings] at hbehind
    refine .inl ⟨e, ?_, ?_⟩
    · rw [HalfRatePhy.build, hinner]
      change (Phy.build (config.behind serializerCycles deserializerCycles) table >>= _) = _
      rw [Phy.build, hbehind]
      rfl
    · rw [Phy.build, hsettings]
      rfl
  | ok settings =>
    rw [hsettings] at hbehind
    obtain ⟨p, hp, rfl⟩ := Phy.build_of_settings hsettings
    obtain ⟨inner, hbuilt, hlater⟩ := Phy.build_of_settings hbehind
    obtain ⟨start, hstart, rfl, -⟩ := HalfRatePhy.around_ok inner
    refine .inr ⟨start, p, ?_, hp, hlater⟩
    rw [HalfRatePhy.build, hinner]
    change (Phy.build (config.behind serializerCycles deserializerCycles) table >>= _) = _
    rw [hbuilt, ok_bind, hstart]
    rfl

end DramPhy
