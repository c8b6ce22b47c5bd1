import DramPhy.Proofs.HalfRate.StageSettings
import DramPhy.Proofs.Phy.ReadTiming

/-! The timing of reads through a 2:1 stage. Commands reach the pads a cycle later and data
come in two cycles later, which are the three cycles that the settings add to the read
latency. -/

namespace DramPhy

def HalfRateInput.reading (i : HalfRateInput) : Bool := i.phases.any (·.rddataEn)

def HalfRateInput.leveling (i : HalfRateInput) : Bool := i.registers.leveling

def HalfRateInput.commands (i : HalfRateInput) : List CommandSlot := i.phases.map (·.command)

def PadOutput.commandWord (out : PadOutput) : CommandPin → Word :=
  (CommandBus.mk out.cs out.ca).word

/-- What a command pad shows in tick `j` of a cycle that is driven in two halves. -/
def Halves.commandBit (pads : Halves PadOutput) (pin : CommandPin) (j : Nat) : Bool :=
  if j < halfPhases then (pads.first.commandWord pin).getLsbD j
  else (pads.second.commandWord pin).getLsbD (j - halfPhases)

/-- What cycle `t` has to return of the reads of a run, and what it shows of their
commands, where `before` is the PHY as the cycle finds it. -/
structure HalfRateReadCycle (config : PhyConfig) (timing : Timing) (inputs : List HalfRateInput)
    (t : Nat) (before : HalfRatePhy) (cycle : HalfRateCycle) : Prop where
  records : cycle.phases.length = phasesPerCycle
  valid : ∀ ph ∈ cycle.phases, ph.rddataValid = true ↔
    (∃ u i, u + timing.readLatency = t ∧ inputs[u]? = some i ∧ i.reading = true) ∨
      ∃ i, inputs[t]? = some i ∧ i.leveling = true
  data : ∀ v i lane other, v + 3 = t → inputs[v]? = some i → lane < config.databits →
    lane / 8 = other / 8 → before.inner.readSlip other = .ok 0 →
    laneWord cycle.phases Phase.rddata config.databits lane = (i.samples (.dq lane)).join (2 * halfPhases)
  /-- Tick `x` of the slot stream is on the pads two cycles later. -/
  bus : ∀ pin j, 1 ≤ t → j < phasesPerCycle → (cycle.pads.commandBit pin j = true ↔
    ∃ s x, x + 2 * phasesPerCycle = t * phasesPerCycle + j ∧
      Drives phasesPerCycle config.overlapMasking (inputs.map (·.commands)) s pin x)

variable {p r : Phy} {start q : HalfRatePhy} {config : PhyConfig} {table : CasTable}
  {inputs : List HalfRateInput} {run : List CycleInput} {i : HalfRateInput} {t : Nat}

theorem PadOutput.HalfOf.commandWord_eq {half out : PadOutput} {pick : Halves Word → Word}
    (h : half.HalfOf out pick) (pin : CommandPin) :
    half.commandWord pin = pick ((out.commandWord pin).halves halfPhases) := by
  cases pin with
  | cs => exact Except.ok.inj (h.lane_eq .cs (by simp [PadOutput.lanes]) rfl rfl)
  | ca k =>
    have hentry : ∀ ca : Vector Word caPads, entry ca.toList k = .ok ca[k] := by
      intro ca
      rw [entry_eq_ok, List.getElem?_eq_getElem (by simp), Vector.getElem_toList]
      rfl
    have hlane := h.lane_eq (.ca k) (by simp [PadOutput.lanes]) rfl (hentry out.ca)
    exact Except.ok.inj ((hentry half.ca).symm.trans hlane)

theorem PadOutput.SplitsInto.commandBit_eq {out : PadOutput} {pads : Halves PadOutput}
    (h : out.SplitsInto pads) (pin : CommandPin) {j : Nat} (hj : j < phasesPerCycle) :
    pads.commandBit pin j = (out.commandWord pin).getLsbD j := by
  rw [Halves.commandBit, h.first.commandWord_eq, h.second.commandWord_eq]
  split_ifs with hhalf
  · rw [Word.halves, Word.getLsbD_cut, decide_eq_true hhalf, Bool.and_true]
  · rw [Word.halves, Word.getLsbD_cut, BitVec.getLsbD_ushiftRight,
      Nat.add_sub_cancel' (Nat.le_of_not_lt hhalf), decide_eq_true, Bool.and_true]
    simp only [phasesPerCycle, halfPhases] at *
    omega

theorem besideInputs_commands (config : PhyConfig) (inputs : List HalfRateInput) :
    (besideInputs config inputs).map (·.commands) = inputs.map (·.commands) := by
  apply List.ext_getElem?
  intro k
  rw [List.getElem?_map, List.getElem?_map, besideInputs_getElem?, Option.map_map]
  rfl

theorem earlier_besideInputs (config : PhyConfig) (inputs : List HalfRateInput)
    {flag : CycleInput → Bool} {own : HalfRateInput → Bool}
    (h : ∀ i pads, flag ⟨i.registers, i.phases, pads⟩ = own i) (t d : Nat) :
    earlier (besideInputs config inputs) flag t d = true ↔
      ∃ u i, u + d = t ∧ inputs[u]? = some i ∧ own i = true := by
  rw [earlier, Bool.and_eq_true, decide_eq_true_iff, besideInputs_getElem?, Option.any_map,
    Option.any_eq_true]
  simp only [besideInput, h]
  constructor
  · rintro ⟨hd, i, hi, hown⟩
    exact ⟨t - d, i, Nat.sub_add_cancel hd, hi, hown⟩
  · rintro ⟨u, i, rfl, hi, hown⟩
    rw [Nat.add_sub_cancel]
    exact ⟨Nat.le_add_left .., i, hi, hown⟩

/-- The PHY inside samples what the pads showed two cycles before. -/
theorem besideInputs_joined (config : PhyConfig) {v : Nat} (h : inputs[v]? = some i)
    (ht : v + 2 < inputs.length) :
    ∃ j, (besideInputs config inputs)[v + 2]? = some j ∧ j.pads = i.joined config.databits := by
  refine ⟨_, by rw [besideInputs_getElem?, List.getElem?_eq_getElem ht, Option.map_some], ?_⟩
  rw [besideInput, List.map_take, ago_take (by rw [List.length_map]; omega), if_pos (by omega),
    show v + 2 - 1 - 1 = v by omega, List.getElem?_map, h]
  rfl

theorem Phy.after_readCycle (h : Phy.build config table = .ok p) (hr : p.after run = .ok r)
    (ht : t < run.length) : ∃ before c, p.after (run.take t) = .ok before ∧ p.cycleAt run t = .ok c ∧
      ReadCycle config p.settings.timing run t before c := by
  obtain ⟨-, hs, hf, -⟩ := Phy.build_follows h
  obtain ⟨before, c, hbefore, hcycle, hc⟩ := Phy.after_take hr ht
  obtain ⟨hfollows, -⟩ := Phy.after_follows hs hf hbefore
  obtain ⟨-, -, hclosed⟩ := (hfollows.cycleOn_eq_ok hs).mp hcycle
  exact ⟨before, c, hbefore, hc, hfollows.readCycle hs (List.getElem?_eq_getElem ht)
    (Phy.after_follows hs hf hr).2 (by rw [hclosed]) (by rw [hclosed])⟩

/-- What a cycle of the PHY inside returns is what the stage in front of it returns. -/
theorem HalfRatePhy.after_readCycle (hp : Phy.build config table = .ok p)
    (hstart : start.Tracks p config []) (h : start.after inputs = .ok q) (ht : t < inputs.length) :
    ∃ before cycle, start.after (inputs.take t) = .ok before ∧ start.cycleAt inputs t = .ok cycle ∧
      HalfRateReadCycle config p.settings.timing inputs t before cycle := by
  have hafter := (HalfRatePhy.after_tracks hp hstart h).inner
  have hlen := besideInputs_length config inputs
  obtain ⟨half, cycle, c, out, hhalf, hat, hinner, hc, hout, hphases, -, hsplits⟩ :=
    HalfRatePhy.cycleAt_tracks hp hstart h ht
  obtain ⟨_, _, hbefore, hc', hread⟩ := Phy.after_readCycle hp hafter (hlen ▸ ht)
  obtain rfl := Except.ok.inj (hinner.symm.trans hbefore)
  obtain rfl := Except.ok.inj (hc.symm.trans hc')
  refine ⟨half, cycle, hhalf, hat, hphases ▸ hread.records, fun ph hm => ?_, ?_, ?_⟩
  · have hreading : ∀ (i : HalfRateInput) pads,
        CycleInput.reading ⟨i.registers, i.phases, pads⟩ = i.reading := fun _ _ => rfl
    have hleveling : ∀ (i : HalfRateInput) pads,
        CycleInput.leveling ⟨i.registers, i.phases, pads⟩ = i.leveling := fun _ _ => rfl
    rw [hread.valid ph (hphases ▸ hm), Bool.or_eq_true, earlier_besideInputs config inputs hreading,
      earlier_besideInputs config inputs hleveling]
    simp only [Nat.add_zero, exists_and_left, exists_eq_left]
  · rintro v i lane other rfl hi hlane hbyte hslip
    obtain ⟨j, hj, hpads⟩ := besideInputs_joined config hi (by omega)
    obtain ⟨word, hword, hdata⟩ := hread.data lane other j hlane hbyte (by omega) hj hslip
    rw [hpads, HalfRateInput.joined, PadInput.ofLanes, List.getElem?_map,
      List.getElem?_range hlane, Option.map_some, Option.some.injEq] at hword
    rw [hphases, hdata, ← hword]
    exact Halves.join_cut _ _
  · intro pin j hpos hj
    obtain ⟨u, rfl⟩ := Nat.exists_eq_add_of_le' hpos
    obtain ⟨_, c', -, hlast, hread'⟩ := Phy.after_readCycle hp hafter (show u < _ by omega)
    rw [Phy.outputBefore, hlast, ok_bind, pure_eq_ok] at hout
    rw [hsplits.commandBit_eq pin hj, ← hout, PadOutput.commandWord, hread'.bus pin j,
      besideInputs_commands, and_iff_right hj]
    have hshift : ∀ x, x + phasesPerCycle = u * phasesPerCycle + j ↔
        x + 2 * phasesPerCycle = (u + 1) * phasesPerCycle + j := by
      intro x
      rw [Nat.add_one_mul u]
      omega
    simp only [hshift]

/-- The settings of a PHY behind a 2:1 stage are true of it. They are those of the plain PHY,
with three more cycles of read latency, and every read comes back when they say. -/
theorem half_rate_reads (hrows : ∀ row ∈ table, row.cl < 2 ^ 60)
    (hticks : config.commandTicks < 2 ^ 60) (hser : config.serializer.Canonical)
    (hserCycles : config.serializer.cycles < 2 ^ 60) (hdes : config.deserializer.Canonical)
    (hdesCycles : config.deserializer.cycles < 2 ^ 60) :
    (∃ e, HalfRatePhy.build config table = .error e ∧ Phy.build config table = .error e) ∨
    ∃ start p ser des, HalfRatePhy.build config table = .ok start ∧ Phy.build config table = .ok p ∧
      start.inner.settings = p.settings.later 3 ∧
      config.serializer.total = .ok ser ∧ config.deserializer.total = .ok des ∧
      start.inner.settings.timing.rdPhase < phasesPerCycle ∧
      5 ≤ start.inner.settings.timing.readLatency ∧
      (∀ u v, phasesPerCycle * v = phasesPerCycle * (u + 2) + start.inner.settings.timing.rdPhase +
          config.commandTicks + start.inner.settings.timing.cl + ser + des ↔
        v + 3 = u + start.inner.settings.timing.readLatency) ∧
      ∀ inputs, ((∀ i ∈ inputs, i.phases.length = phasesPerCycle) →
          phasesPerCycle * inputs.length < Count.limit → ∃ q, start.after inputs = .ok q) ∧
        ∀ q, start.after inputs = .ok q → ∀ t, t < inputs.length →
          ∃ before cycle, start.after (inputs.take t) = .ok before ∧
            start.cycleAt inputs t = .ok cycle ∧
            HalfRateReadCycle config start.inner.settings.timing inputs t before cycle := by
  rcases HalfRatePhy.build_settings hrows hticks hser hserCycles hdes hdesCycles with
    hfail | ⟨start, p, hstart, hp, hsettings⟩
  · exact .inl hfail
  obtain ⟨row, hrow, hresolved⟩ := resolveTiming_eq_ok.mp (settings_eq_ok (Phy.build_follows hp).1).2
  have hcl : p.settings.timing.cl < 2 ^ 60 := by
    rw [resolveRow_cl hresolved]
    exact hrows row (CasTable.lookup_mem hrow)
  obtain ⟨hphase, hlatency, hsum⟩ := Phy.build_read hp hcl hticks hser hdes
  obtain ⟨_, _, inner, -, -, hinner, htracks⟩ := HalfRatePhy.build_tracks hstart
  obtain rfl : inner = start.inner := Except.ok.inj htracks.inner
  refine .inr ⟨start, p, _, _, hstart, hp, hsettings, Latency.total_ok ?_, Latency.total_ok ?_, ?_⟩
  · simp only [Latency.Canonical, phasesPerCycle, Count.limit] at *
    omega
  · simp only [Latency.Canonical, phasesPerCycle, Count.limit] at *
    omega
  rw [hsettings]
  refine ⟨hphase, Nat.add_le_add_right hlatency 3, fun u v => ?_, fun inputs => ⟨fun hl hlen => ?_,
    fun q hq t ht => ?_⟩⟩
  · simp only [Settings.later, Timing.later, phasesPerCycle] at hsum ⊢
    omega
  · exact HalfRatePhy.after_complete hinner htracks hl hlen
  · obtain ⟨before, cycle, hbefore, hcycle, hread⟩ := HalfRatePhy.after_readCycle hinner htracks hq ht
    rw [hsettings] at hread
    exact ⟨before, cycle, hbefore, hcycle, hread.records, hread.valid, hread.data, hread.bus⟩

/-- A read enabled in the first of nine cycles, its data on the pads in the sixth. -/
def stageReadRun : List HalfRateInput :=
  [(true, 0, 0), (false, 0, 0), (false, 0, 0), (false, 0, 0), (false, 0, 0), (false, 0x134, 0x012),
    (false, 0, 0), (false, 0, 0), (false, 0, 0)].map fun x =>
    ⟨CalibrationRegisters.make 0 0,
      { Phase.idle with rddataEn := x.1 } :: List.replicate 7 Phase.idle,
      ⟨{ PadInput.blank 16 with dq := List.replicate 16 x.2.1 },
        { PadInput.blank 16 with dq := List.replicate 16 x.2.2 }⟩⟩

theorem stage_returns_pads :
    ∃ start, HalfRatePhy.build (PhyConfig.ofClock 100000000) CasTable.mt53e256m16d1 = .ok start ∧
      start.inner.settings.timing.readLatency = 8 ∧
      ∃ cycle, start.cycleAt stageReadRun 8 = .ok cycle ∧ (∀ ph ∈ cycle.phases, ph.rddataValid = true) ∧
        laneWord cycle.phases Phase.rddata 16 3 = 0x1234 := by
  obtain ⟨start, hstart, hlatency, slipped, hslipped, hslip⟩ : ∃ start,
      HalfRatePhy.build (PhyConfig.ofClock 100000000) CasTable.mt53e256m16d1 = .ok start ∧
        start.inner.settings.timing.readLatency = 8 ∧
        ∃ before, start.after (stageReadRun.take 8) = .ok before ∧ before.inner.readSlip 0 = .ok 0 := by
    decide +kernel
  rcases half_rate_reads (show ∀ row ∈ CasTable.mt53e256m16d1, row.cl < 2 ^ 60 by decide)
      (show (PhyConfig.ofClock 100000000).commandTicks < 2 ^ 60 by decide) (by decide) (by decide)
      (by decide) (by decide) with
    ⟨e, hfail, -⟩ | ⟨again, _, _, _, hagain, -, -, -, -, -, -, -, hreturns⟩
  · rw [hstart] at hfail
    cases hfail
  · obtain rfl := Except.ok.inj (hstart.symm.trans hagain)
    obtain ⟨hruns, hreads⟩ := hreturns stageReadRun
    obtain ⟨q, hq⟩ := hruns (by decide) (by decide)
    obtain ⟨before, cycle, hbefore, hcycle, hread⟩ := hreads q hq 8 (by decide)
    obtain rfl := Except.ok.inj (hslipped.symm.trans hbefore)
    refine ⟨start, hstart, hlatency, cycle, hcycle, fun ph hm => ?_, ?_⟩
    · exact (hread.valid ph hm).mpr (.inl ⟨0, stageReadRun[0], by rw [hlatency], rfl, rfl⟩)
    · exact (hread.data 5 stageReadRun[5] 3 0 rfl rfl (by decide) rfl hslip).trans (by decide)

end DramPhy
