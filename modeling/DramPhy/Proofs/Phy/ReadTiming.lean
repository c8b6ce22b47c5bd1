import DramPhy.Proofs.Controller.LaneScatter
import DramPhy.Proofs.Phy.WriteTiming
import DramPhy.Proofs.Timing.LatencyTicks

/-! The timing of reads. The valid flag runs down a delay line as long as the read
latency, the data take the way through the pads and the bitslips; the read latency
makes them leave in the same cycle. -/

namespace DramPhy

variable {p q : Phy} {config : PhyConfig} {table : CasTable} {settings : Settings}
  {inputs : List CycleInput} {i : CycleInput} {t : Nat}

theorem Phy.returned_eq_scatterWords (p : Phy) (i : CycleInput) : p.returned i =
    scatterWords p.config.databits p.dqRead.windows (i.phases.map fun ph =>
      { ph with rddataValid := p.readEnables.held (p.readEnables.length - 1) || i.leveling }) :=
  rfl

theorem Phy.returned_length (p : Phy) (i : CycleInput) : (p.returned i).length = i.phases.length := by
  rw [Phy.returned_eq_scatterWords, scatterWords_length, List.length_map]

theorem Phy.Follows.returned_laneWord (h : p.Follows config settings inputs)
    (hs : Phy.Sound config settings) (hl : i.phases.length = phasesPerCycle) {lane : Nat}
    {own : ByteSlip} (hown : p.dqRead.lanes[lane]? = some own) :
    laneWord (p.returned i) Phase.rddata config.databits lane = own.slip.window := by
  have hdatabits := hs.databits_le
  have hword : p.dqRead.windows[lane]? = some own.slip.window := by
    rw [LaneBank.windows, List.getElem?_map, hown, Option.map_some]
  have hlen : p.dqRead.windows.length ≤ config.databits := by
    simp [h.dqRead.windows_length, dqBytes]
  simp only [maxDatabits] at hdatabits
  rw [Phy.returned_eq_scatterWords, h.config_eq, laneWord_scatterWords (by omega) hlen hword,
    List.length_map, hl]
  exact (h.dqRead.carries lane own hown).window_cut

theorem Phy.Follows.returned_valid (h : p.Follows config settings inputs)
    (hs : Phy.Sound config settings) : ∀ ph ∈ p.returned i, ph.rddataValid =
      (ago false (inputs.map (·.reading)) (settings.timing.readLatency - 1) || i.leveling) := by
  have hpos := hs.readLatency_pos
  have hheld : p.readEnables.held (p.readEnables.length - 1) =
      ago false (inputs.map (·.reading)) (settings.timing.readLatency - 1) := by
    rw [h.readEnables]
    exact DelayLine.fed_held (show settings.timing.readLatency - 1 < settings.timing.readLatency by omega)
  intro ph hm
  have hmarks : (p.returned i).map (·.rddataValid) = i.phases.map fun _ =>
      ago false (inputs.map (·.reading)) (settings.timing.readLatency - 1) || i.leveling := by
    rw [Phy.returned_eq_scatterWords, scatterWords_map (fun _ _ _ _ => rfl), List.map_map, hheld]
    rfl
  have hmem := List.mem_map_of_mem (f := (·.rddataValid)) hm
  rw [hmarks] at hmem
  obtain ⟨_, -, heq⟩ := List.mem_map.mp hmem
  exact heq.symm

/-- The lanes of a byte whose slip is 0 return what the pads showed in the cycle before. -/
theorem Phy.Follows.returned_of_slip {j : CycleInput} (h : p.Follows config settings (inputs ++ [j]))
    (hs : Phy.Sound config settings) (hj : j.WellFormed config.databits)
    (hl : i.phases.length = phasesPerCycle) {lane other : Nat} (hlane : lane < config.databits)
    (hbyte : lane / 8 = other / 8) (hslip : p.readSlip other = .ok 0) :
    ∃ word, j.pads.dq[lane]? = some word ∧
      laneWord (p.returned i) Phase.rddata config.databits lane = word.cut laneBits := by
  obtain ⟨own, hown, hzero⟩ := h.dqRead.dq_slip hlane hbyte hslip
  obtain ⟨word, hword⟩ : ∃ word, j.pads.dq[lane]? = some word :=
    ⟨_, List.getElem?_eq_getElem (by rwa [hj.2])⟩
  have hcarries := h.dqRead.carries lane own hown
  rw [List.map_append, List.map_singleton, CycleInput.sampled, hword, Option.getD_some,
    received_append] at hcarries
  refine ⟨word, hword, ?_⟩
  rw [h.returned_laneWord hs hl hown, hcarries.window_last hzero]

/-- What cycle `t` has to return of the reads of a run, and what it shows of their
commands, where `before` is the PHY as the cycle finds it. -/
structure ReadCycle (config : PhyConfig) (timing : Timing) (inputs : List CycleInput) (t : Nat)
    (before : Phy) (c : PhyCycle) : Prop where
  records : c.phases.length = phasesPerCycle
  valid : ∀ ph ∈ c.phases, ph.rddataValid =
    (earlier inputs CycleInput.reading t timing.readLatency || earlier inputs CycleInput.leveling t 0)
  data : ∀ lane other i, lane < config.databits → lane / 8 = other / 8 → 1 ≤ t →
    inputs[t - 1]? = some i → before.readSlip other = .ok 0 →
    ∃ word, i.pads.dq[lane]? = some word ∧
      laneWord c.phases Phase.rddata config.databits lane = word.cut laneBits
  /-- Tick `x` of the slot stream is on the pads one cycle later. -/
  bus : ∀ pin j, ((CommandBus.mk c.pads.cs c.pads.ca).word pin).getLsbD j = true ↔
    j < phasesPerCycle ∧ ∃ s x, x + phasesPerCycle = t * phasesPerCycle + j ∧
      Drives phasesPerCycle config.overlapMasking (inputs.map (·.commands)) s pin x

theorem Phy.Follows.readCycle {c : PhyCycle} (h : p.Follows config settings (inputs.take t))
    (hs : Phy.Sound config settings) (ht : inputs[t]? = some i)
    (hwf : ∀ j ∈ inputs, j.WellFormed config.databits) (hphases : c.phases = p.returned i)
    (hpads : c.pads = p.pads) : ReadCycle config settings.timing inputs t p c := by
  have hpos := hs.readLatency_pos
  have hlt : t < inputs.length := (List.getElem?_eq_some_iff.mp ht).1
  have hi := hwf i (List.mem_of_getElem? ht)
  refine ⟨?_, ?_, ?_, ?_⟩
  · rw [hphases, Phy.returned_length, hi.1]
  · intro ph hm
    rw [hphases] at hm
    have hnow : earlier inputs CycleInput.leveling t 0 = i.leveling := by simp [earlier, ht]
    rw [h.returned_valid hs ph hm, ago_eq_earlier (Nat.le_of_lt hlt), hnow,
      Nat.sub_add_cancel hpos]
  · intro lane other j hlane hbyte ht1 hj hslip
    have htake : inputs.take t = inputs.take (t - 1) ++ [j] := by
      obtain ⟨hlt', rfl⟩ := List.getElem?_eq_some_iff.mp hj
      rw [List.take_append_getElem, Nat.sub_add_cancel ht1]
    rw [htake] at h
    rw [hphases]
    exact h.returned_of_slip hs (hwf j (List.mem_of_getElem? hj)) hi.1 hlane hbyte hslip
  · rw [hpads]
    have hrun := h.arbiter
    rw [List.map_take] at hrun
    exact Arbiter.bus_drives (by decide) hrun (by rw [List.length_map]; omega)

/-- The read latency in ticks: the pad word of a read starts as long after the slot of
the read command as the command, the CAS latency, the serializer and the deserializer
take. -/
theorem Phy.build_read (h : Phy.build config table = .ok p) (hcl : p.settings.timing.cl < 2 ^ 60)
    (hticks : config.commandTicks < 2 ^ 60) (hser : config.serializer.Canonical)
    (hdes : config.deserializer.Canonical) :
    p.settings.timing.rdPhase < phasesPerCycle ∧ 2 ≤ p.settings.timing.readLatency ∧
      phasesPerCycle * p.settings.timing.readLatency =
        2 * phasesPerCycle + p.settings.timing.rdPhase + config.commandTicks +
          p.settings.timing.cl +
          (config.serializer.cycles * phasesPerCycle + config.serializer.ticks) +
          (config.deserializer.cycles * phasesPerCycle + config.deserializer.ticks) := by
  obtain ⟨hsettings, -⟩ := Phy.build_follows h
  obtain ⟨row, -, hrow⟩ := resolveTiming_eq_ok.mp (settings_eq_ok hsettings).2
  rw [resolveRow_cl hrow] at hcl ⊢
  exact resolveRow_read hrow (by
    simp only [Latency.Canonical, PhyConfig.timingRequest, phasesPerCycle, Offset.limit] at *
    omega)

/-- In every run of a PHY reads come back as the read latency says. -/
theorem read_timing (inputs : List CycleInput) (h : Phy.build config table = .ok p)
    (hcl : p.settings.timing.cl < 2 ^ 60) (hticks : config.commandTicks < 2 ^ 60)
    (hser : config.serializer.Canonical) (hserCycles : config.serializer.cycles < 2 ^ 60)
    (hdes : config.deserializer.Canonical) (hdesCycles : config.deserializer.cycles < 2 ^ 60) :
    (∃ ser des, config.serializer.total = .ok ser ∧ config.deserializer.total = .ok des ∧
      p.settings.timing.rdPhase < phasesPerCycle ∧ 2 ≤ p.settings.timing.readLatency ∧
      ∀ u, phasesPerCycle * (u + p.settings.timing.readLatency - 1) =
        phasesPerCycle * (u + 1) + p.settings.timing.rdPhase + config.commandTicks +
          p.settings.timing.cl + ser + des) ∧
    ((∀ i ∈ inputs, i.WellFormed config.databits) → phasesPerCycle * inputs.length < Count.limit →
      ∃ q, p.after inputs = .ok q) ∧
    ∀ q, p.after inputs = .ok q → ∀ t, t < inputs.length →
      ∃ before c, p.after (inputs.take t) = .ok before ∧ p.cycleAt inputs t = .ok c ∧
        ReadCycle config p.settings.timing inputs t before c := by
  obtain ⟨-, hs, hf, hsuppressed⟩ := Phy.build_follows h
  obtain ⟨hphase, hlatency, hsum⟩ := Phy.build_read h hcl hticks hser hdes
  refine ⟨⟨_, _, Latency.total_ok ?_, Latency.total_ok ?_, hphase, hlatency, fun u => ?_⟩,
    fun hwf hlen => ?_, fun q hq t ht => ?_⟩
  · simp only [Latency.Canonical, phasesPerCycle, Count.limit] at *
    omega
  · simp only [Latency.Canonical, phasesPerCycle, Count.limit] at *
    omega
  · simp only [phasesPerCycle] at hsum ⊢
    omega
  · obtain ⟨q, hq, -⟩ := Phy.after_ok hs hf hsuppressed hwf hlen
    exact ⟨q, hq⟩
  · obtain ⟨before, c, hbefore, hcycle, hc⟩ := Phy.after_take hq ht
    obtain ⟨hfollows, -⟩ := Phy.after_follows hs hf hbefore
    obtain ⟨-, -, hclosed⟩ := (hfollows.cycleOn_eq_ok hs).mp hcycle
    refine ⟨before, c, hbefore, hc, ?_⟩
    exact hfollows.readCycle hs (List.getElem?_eq_getElem ht) (Phy.after_follows hs hf hq).2
      (by rw [hclosed]) (by rw [hclosed])

/-- A read enabled in the first of six cycles, its data on the pads in the fifth. -/
def readRun : List CycleInput :=
  [(true, 0), (false, 0), (false, 0), (false, 0), (false, 0xbeef), (false, 0)].map fun x =>
    ⟨CalibrationRegisters.make 0 0,
      { Phase.idle with rddataEn := x.1 } :: List.replicate 7 Phase.idle,
      { PadInput.blank 16 with dq := List.replicate 16 x.2 }⟩

theorem read_returns_pads :
    ∃ p, Phy.build (PhyConfig.ofClock 100000000) CasTable.mt53e256m16d1 = .ok p ∧
      p.settings.timing.readLatency = 5 ∧
      ∃ c, p.cycleAt readRun 5 = .ok c ∧ (∀ ph ∈ c.phases, ph.rddataValid = true) ∧
        laneWord c.phases Phase.rddata 16 3 = 0xbeef := by
  obtain ⟨p, hp, hcl, hlatency, slipped, hslipped, hslip⟩ : ∃ p,
      Phy.build (PhyConfig.ofClock 100000000) CasTable.mt53e256m16d1 = .ok p ∧
        p.settings.timing.cl < 2 ^ 60 ∧ p.settings.timing.readLatency = 5 ∧
        ∃ before, p.after (readRun.take 5) = .ok before ∧ before.readSlip 0 = .ok 0 := by
    decide +kernel
  obtain ⟨-, hruns, hreturns⟩ := read_timing readRun hp hcl (by decide) (by decide) (by decide)
    (by decide) (by decide)
  obtain ⟨q, hq⟩ := hruns (by decide) (by decide)
  obtain ⟨before, c, hbefore, hc, hread⟩ := hreturns q hq 5 (by decide)
  have hsame : before = slipped := Except.ok.inj (hbefore.symm.trans hslipped)
  obtain ⟨word, hword, hdata⟩ := hread.data 3 0 readRun[4] (by decide) (by decide) (by decide) rfl
    (by rw [hsame, hslip])
  refine ⟨p, hp, hlatency, c, hc, fun ph hm => ?_, hdata.trans ?_⟩
  · rw [hread.valid ph hm, hlatency]
    decide
  · rw [← Option.some.inj hword]
    decide

end DramPhy
