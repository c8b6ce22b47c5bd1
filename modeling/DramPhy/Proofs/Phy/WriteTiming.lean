import DramPhy.Proofs.Command.BusSlots
import DramPhy.Proofs.Phy.Run

/-! The timing of writes on the pads. Commands, data, the enable of the data and
the enable of the strobe are delayed each on their own way; the write latency
makes them meet. -/

namespace DramPhy

/-- Whether a flag was up `d` cycles before cycle `t`. Before the first cycle no
flag is up. -/
def earlier (inputs : List CycleInput) (flag : CycleInput → Bool) (t d : Nat) : Bool :=
  decide (d ≤ t) && inputs[t - d]?.any flag

variable {p q : Phy} {config : PhyConfig} {table : CasTable} {settings : Settings}
  {inputs : List CycleInput} {t : Nat}

theorem ago_eq_earlier {flag : CycleInput → Bool} (ht : t ≤ inputs.length) (k : Nat) :
    ago false ((inputs.take t).map flag) k = earlier inputs flag t (k + 1) := by
  rw [List.map_take, ago_take (by rwa [List.length_map]), List.getElem?_map, earlier]
  by_cases hk : k < t
  · rw [if_pos hk, decide_eq_true (show k + 1 ≤ t from hk), Bool.true_and, Nat.sub_sub, Nat.add_comm 1 k]
    cases inputs[t - (k + 1)]? <;> rfl
  · rw [if_neg hk, decide_eq_false (show ¬ k + 1 ≤ t from hk), Bool.false_and]

theorem Phy.Follows.dqOe_held (h : p.Follows config settings inputs) :
    p.dqOe.held 0 = ago false (inputs.map (·.writing)) (settings.timing.writeTap + 1) := by
  rw [h.dqOe, DelayLine.fed_held (by decide)]
  rcases List.eq_nil_or_concat inputs with rfl | ⟨before, i, rfl⟩
  · rfl
  · rw [List.concat_eq_append, writeFrames_append, List.map_append, List.map_singleton, ago_append,
      frameAfter, writeFrame, List.map_append, List.map_singleton]

theorem Phy.Follows.dqsOe_held (h : p.Follows config settings inputs) :
    p.dqsOe.held 0 = (ago false (inputs.map (·.leveling)) 0 ||
      ago false (inputs.map (·.writing)) settings.timing.writeTap ||
      ago false (inputs.map (·.writing)) (settings.timing.writeTap + 1) ||
      ago false (inputs.map (·.writing)) (settings.timing.writeTap + 2)) := by
  rw [h.dqsOe, DelayLine.fed_held (by decide)]
  rcases List.eq_nil_or_concat inputs with rfl | ⟨before, i, rfl⟩
  · rfl
  · rw [List.concat_eq_append, writeFrames_append, List.map_append, List.map_singleton, ago_append,
      frameAfter, writeFrame_dqsOe, List.map_append, List.map_singleton, ago_append, List.map_append,
      List.map_singleton]

theorem laneWord_cut {phases : List Phase} (hl : phases.length = phasesPerCycle)
    (field : Phase → Word) (width lane : Nat) :
    (laneWord phases field width lane).cut laneBits = laneWord phases field width lane := by
  refine Word.cut_eq_self fun i hi => ?_
  rw [laneWord, Word.getLsbD_ofBits, hl, Bool.and_eq_true, Bool.and_eq_true] at hi
  exact of_decide_eq_true hi.1.1

/-- A DQ lane whose slip is 0 carries the words of the cycle before. -/
theorem Phy.Follows.dq_of_slip {i : CycleInput} (h : p.Follows config settings (inputs ++ [i]))
    (hi : i.WellFormed config.databits) {lane other : Nat} (hlane : lane < config.databits)
    (hbyte : lane / 8 = other / 8) (hslip : p.writeSlip other = .ok 0) :
    p.pads.dq[lane]? = some (laneWord i.phases Phase.wrdata config.databits lane) := by
  obtain ⟨own, hown, hzero⟩ := h.dqWrite.dq_slip hlane hbyte hslip
  have hcarries := h.dqWrite.carries lane own hown
  rw [List.map_append, List.map_singleton, CycleInput.written, received_append] at hcarries
  change p.dqWrite.windows[lane]? = _
  rw [LaneBank.windows, List.getElem?_map, hown, Option.map_some,
    hcarries.window_last hzero, laneWord_cut hi.1]

/-- What the pads of cycle `t` have to show of the writes of a run, where `before`
is the PHY as the cycle finds it. -/
structure WriteCycle (config : PhyConfig) (timing : Timing) (inputs : List CycleInput) (t : Nat)
    (before : Phy) (pads : PadOutput) : Prop where
  dqOe : pads.dqOe = earlier inputs CycleInput.writing t (timing.writeLatency + 1)
  dqsOe : pads.dqsOe = (earlier inputs CycleInput.leveling t 1 ||
    earlier inputs CycleInput.writing t timing.writeLatency ||
    earlier inputs CycleInput.writing t (timing.writeLatency + 1) ||
    earlier inputs CycleInput.writing t (timing.writeLatency + 2))
  dmiOe : pads.dmiOe = (config.maskedWrite && pads.dqOe)
  dmi : config.maskedWrite = false → pads.dmi = List.replicate config.bytes 0
  dq : ∀ lane other i, lane < config.databits → lane / 8 = other / 8 → 1 ≤ t →
    inputs[t - 1]? = some i → before.writeSlip other = .ok 0 →
    pads.dq[lane]? = some (laneWord i.phases Phase.wrdata config.databits lane)
  /-- Tick `x` of the slot stream is on the pads one cycle later. -/
  bus : ∀ pin j, ((CommandBus.mk pads.cs pads.ca).word pin).getLsbD j = true ↔ j < phasesPerCycle ∧
    ∃ s x, x + phasesPerCycle = t * phasesPerCycle + j ∧
      Drives phasesPerCycle config.overlapMasking (inputs.map (·.commands)) s pin x

theorem Phy.Follows.writeCycle (h : p.Follows config settings (inputs.take t)) (ht : t ≤ inputs.length)
    (hlatency : settings.timing.writeLatency = settings.timing.writeTap + 1)
    (hwf : ∀ i ∈ inputs, i.WellFormed config.databits) :
    WriteCycle config settings.timing inputs t p p.pads := by
  refine ⟨?_, ?_, ?_, ?_, ?_, ?_⟩
  · rw [hlatency, ← ago_eq_earlier ht]
    exact h.dqOe_held
  · rw [hlatency, ← ago_eq_earlier ht, ← ago_eq_earlier ht, ← ago_eq_earlier ht, ← ago_eq_earlier ht]
    exact h.dqsOe_held
  · rw [← h.config_eq]
    rfl
  · intro hmask
    rw [Phy.pads, h.config_eq, if_neg (by rw [hmask]; exact Bool.false_ne_true)]
  · intro lane other i hlane hbyte hpos hi hslip
    have htake : inputs.take t = inputs.take (t - 1) ++ [i] := by
      obtain ⟨hlt, rfl⟩ := List.getElem?_eq_some_iff.mp hi
      rw [List.take_append_getElem, Nat.sub_add_cancel hpos]
    rw [htake] at h
    exact h.dq_of_slip (hwf i (List.mem_of_getElem? hi)) hlane hbyte hslip
  · have hrun := h.arbiter
    rw [List.map_take] at hrun
    exact Arbiter.bus_drives (by decide) hrun (by rwa [List.length_map])

/-- The write latency in ticks: the cycle of the data starts as long after the slot
of the write command as the command and the CAS latency take. -/
theorem Phy.build_write (h : Phy.build config table = .ok p) (hcwl : p.settings.timing.cwl < 2 ^ 60)
    (hticks : config.commandTicks < 2 ^ 60) :
    p.settings.timing.wrPhase < phasesPerCycle ∧
      p.settings.timing.writeLatency = p.settings.timing.writeTap + 1 ∧
      phasesPerCycle * p.settings.timing.writeLatency =
        p.settings.timing.wrPhase + config.commandTicks + p.settings.timing.cwl := by
  obtain ⟨hsettings, -⟩ := Phy.build_follows h
  obtain ⟨row, -, hrow⟩ := resolveTiming_eq_ok.mp (settings_eq_ok hsettings).2
  rw [resolveRow_cwl hrow] at hcwl ⊢
  exact resolveRow_write hrow (by
    simp only [PhyConfig.timingRequest, phasesPerCycle, Offset.limit]
    omega)

/-- In every run of a PHY the pads show the writes as the write latency says. -/
theorem write_timing (inputs : List CycleInput) (h : Phy.build config table = .ok p)
    (hcwl : p.settings.timing.cwl < 2 ^ 60) (hticks : config.commandTicks < 2 ^ 60) :
    (p.settings.timing.wrPhase < phasesPerCycle ∧
      ∀ u, phasesPerCycle * (u + p.settings.timing.writeLatency + 1) =
        phasesPerCycle * (u + 1) + p.settings.timing.wrPhase + config.commandTicks +
          p.settings.timing.cwl) ∧
    ((∀ i ∈ inputs, i.WellFormed config.databits) → phasesPerCycle * inputs.length < Count.limit →
      ∃ q, p.after inputs = .ok q) ∧
    ∀ q, p.after inputs = .ok q → ∀ t, t < inputs.length →
      ∃ before c, p.after (inputs.take t) = .ok before ∧ p.cycleAt inputs t = .ok c ∧
        WriteCycle config p.settings.timing inputs t before c.pads := by
  obtain ⟨-, hs, hf, hsuppressed⟩ := Phy.build_follows h
  obtain ⟨hphase, htap, hsum⟩ := Phy.build_write h hcwl hticks
  refine ⟨⟨hphase, fun u => ?_⟩, fun hwf hlen => ?_, fun q hq t ht => ?_⟩
  · simp only [Nat.mul_add, hsum]
    omega
  · obtain ⟨q, hq, -⟩ := Phy.after_ok hs hf hsuppressed hwf hlen
    exact ⟨q, hq⟩
  · obtain ⟨before, c, hbefore, hcycle, hc⟩ := Phy.after_take hq ht
    obtain ⟨hfollows, -⟩ := Phy.after_follows hs hf hbefore
    obtain ⟨-, -, rfl⟩ := (hfollows.cycleOn_eq_ok hs).mp hcycle
    exact ⟨before, _, hbefore, hc, hfollows.writeCycle (Nat.le_of_lt ht) htap (Phy.after_follows hs hf hq).2⟩

/-- A write enabled in the first of four cycles, its data in the third. -/
def writeRun : List CycleInput :=
  let burst : List Phase :=
    [{ Phase.idle with wrdata := 0x80000 }, Phase.idle, { Phase.idle with wrdata := 8 }]
  [[{ Phase.idle with wrdataEn := true }], [], burst, []].map fun phases =>
    ⟨CalibrationRegisters.make 0 0, phases ++ List.replicate (8 - phases.length) Phase.idle,
      PadInput.blank 16⟩

/-- Lane 3 has the second beat of the first phase and the first beat of the third one. -/
theorem write_reaches_pads :
    ∃ p, Phy.build (PhyConfig.ofClock 100000000) CasTable.mt53e256m16d1 = .ok p ∧
      p.settings.timing.writeLatency = 2 ∧
      ∃ c, p.cycleAt writeRun 3 = .ok c ∧ c.pads.dqOe = true ∧ c.pads.dq[3]? = some 0x12 := by
  obtain ⟨p, hp, hcwl, hlatency, slipped, hslipped, hslip⟩ : ∃ p,
      Phy.build (PhyConfig.ofClock 100000000) CasTable.mt53e256m16d1 = .ok p ∧
        p.settings.timing.cwl < 2 ^ 60 ∧ p.settings.timing.writeLatency = 2 ∧
        ∃ before, p.after (writeRun.take 3) = .ok before ∧ before.writeSlip 0 = .ok 0 := by
    decide +kernel
  obtain ⟨-, hruns, hshows⟩ := write_timing writeRun hp hcwl (by decide)
  obtain ⟨q, hq⟩ := hruns (by decide) (by decide)
  obtain ⟨before, c, hbefore, hc, hwrite⟩ := hshows q hq 3 (by decide)
  have hsame : before = slipped := Except.ok.inj (hbefore.symm.trans hslipped)
  have hdata := hwrite.dq 3 0 writeRun[2] (by decide) (by decide) (by decide) rfl
    (by rw [hsame, hslip])
  refine ⟨p, hp, hlatency, c, hc, ?_, hdata.trans ?_⟩
  · rw [hwrite.dqOe, hlatency]
    decide
  · decide

end DramPhy
