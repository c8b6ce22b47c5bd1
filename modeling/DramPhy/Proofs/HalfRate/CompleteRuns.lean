import DramPhy.Proofs.HalfRate.Refinement
import DramPhy.Proofs.Phy.ReadTiming

/-! Runs of a PHY that could be built, alone or behind a 2:1 stage. Whatever the
controller, the calibration and the pads bring, no cycle fails, and every cycle drives
pads of the configured shape. -/

namespace DramPhy

/-- An output with the lanes of a width, none of whose words is longer than its lane. -/
structure PadOutput.InShape (out : PadOutput) (phases databits : Nat) : Prop where
  phases_eq : out.phases = phases
  dmi_length : out.dmi.length = byteLanes databits
  dq_length : out.dq.length = databits
  dqs_length : out.dqs.length = byteLanes databits
  words_lt : ∀ lane ∈ out.lanes, ∃ width word, lane.width out.phases = .ok width ∧
    out.lane lane = .ok word ∧ word.toNat < 2 ^ width

variable {databits : Nat} {out half : PadOutput} {pads : Halves PadOutput} {pick : Halves Word → Word}

theorem PadOutput.lengths_of_blank {phases : Nat}
    (h : out.lanes = (PadOutput.blank phases databits).lanes) :
    out.dmi.length = byteLanes databits ∧ out.dq.length = databits ∧
      out.dqs.length = byteLanes databits := by
  simpa [PadOutput.blank] using PadOutput.lengths_eq h

/-- An output that goes into two halves without loss has the shape of a whole cycle. -/
theorem PadOutput.Fits.inShape (h : out.Fits databits) (hphases : out.phases = phasesPerCycle) :
    out.InShape phasesPerCycle databits := by
  obtain ⟨hdmi, hdq, hdqs⟩ := PadOutput.lengths_of_blank h.lanes_eq
  refine ⟨hphases, hdmi, hdq, hdqs, fun lane hm => ?_⟩
  rw [hphases]
  exact ⟨_, _, lane.width_whole, PadOutput.lane_word hm, Word.toNat_lt (h.cut_eq lane hm)⟩

theorem PadOutput.HalfOf.inShape (h : half.HalfOf out pick) (hfits : out.Fits databits)
    (hpick : ∀ (word : Word) width, (pick (word.halves width)).cut width = pick (word.halves width)) :
    half.InShape halfPhases databits := by
  obtain ⟨hdmi, hdq, hdqs⟩ := PadOutput.lengths_of_blank (h.lanes_eq.trans hfits.lanes_eq)
  refine ⟨h.phases_eq, hdmi, hdq, hdqs, fun lane hm => ?_⟩
  rw [h.lanes_eq] at hm
  obtain ⟨width, word, hwidth, -, hword⟩ := h.words lane hm
  rw [h.phases_eq]
  exact ⟨width, _, hwidth, hword, Word.toNat_lt (hpick word width)⟩

theorem PadOutput.SplitsInto.inShape (h : out.SplitsInto pads) (hfits : out.Fits databits) :
    pads.first.InShape halfPhases databits ∧ pads.second.InShape halfPhases databits :=
  ⟨h.first.inShape hfits fun word => word.cut_cut, h.second.inShape hfits fun word width =>
    Word.cut_cut (word >>> width) width⟩

variable {p q : Phy} {start last : HalfRatePhy} {config : PhyConfig} {table : CasTable} {t : Nat}

theorem Phy.cycleAt_inShape {inputs : List CycleInput} (h : Phy.build config table = .ok p)
    (hq : p.after inputs = .ok q) (ht : t < inputs.length) :
    ∃ c, p.cycleAt inputs t = .ok c ∧ c.pads.InShape phasesPerCycle config.databits := by
  obtain ⟨-, hs, hf, -⟩ := Phy.build_follows h
  obtain ⟨before, c, hbefore, hcycle, hat⟩ := Phy.after_take hq ht
  obtain ⟨hfollows, hwf⟩ := Phy.after_follows hs hf hbefore
  obtain ⟨-, -, rfl⟩ := (hfollows.cycleOn_eq_ok hs).mp hcycle
  exact ⟨_, hat, (hfollows.pads_fit hwf).inShape rfl⟩

theorem HalfRatePhy.cycleAt_inShape {inputs : List HalfRateInput}
    (h : HalfRatePhy.build config table = .ok start) (hlast : start.after inputs = .ok last)
    (ht : t < inputs.length) :
    ∃ cycle, start.cycleAt inputs t = .ok cycle ∧
      cycle.pads.first.InShape halfPhases config.databits ∧
      cycle.pads.second.InShape halfPhases config.databits := by
  obtain ⟨_, _, p, -, -, hp, hstart⟩ := HalfRatePhy.build_tracks h
  obtain ⟨_, cycle, _, _, -, hcycle, -, -, -, -, hfits, hsplits⟩ :=
    HalfRatePhy.cycleAt_tracks hp hstart hlast ht
  exact ⟨cycle, hcycle, hsplits.inShape hfits⟩

/-- A PHY that could be built completes every run that is not too long to be counted, and
so does one behind a 2:1 stage. -/
theorem built_runs_complete (config : PhyConfig) (table : CasTable) :
    (∀ p, Phy.build config table = .ok p → ∀ inputs : List CycleInput,
      (∀ i ∈ inputs, i.phases.length = phasesPerCycle ∧ i.pads.dq.length = config.databits) →
      inputs.length < 2 ^ 60 →
      ∃ q, p.after inputs = .ok q ∧ ∀ t, t < inputs.length →
        ∃ c, p.cycleAt inputs t = .ok c ∧ c.pads.InShape phasesPerCycle config.databits) ∧
    ∀ start, HalfRatePhy.build config table = .ok start → ∀ inputs : List HalfRateInput,
      (∀ i ∈ inputs, i.phases.length = phasesPerCycle) → inputs.length < 2 ^ 60 →
      ∃ q, start.after inputs = .ok q ∧ ∀ t, t < inputs.length →
        ∃ cycle, start.cycleAt inputs t = .ok cycle ∧
          cycle.pads.first.InShape halfPhases config.databits ∧
          cycle.pads.second.InShape halfPhases config.databits := by
  have hcount : ∀ n, n < 2 ^ 60 → phasesPerCycle * n < Count.limit := by
    intro n hn
    simp only [phasesPerCycle, Count.limit]
    omega
  refine ⟨fun p hp inputs hwf hlen => ?_, fun start hstart inputs hl hlen => ?_⟩
  · obtain ⟨-, hs, hf, hsuppressed⟩ := Phy.build_follows hp
    obtain ⟨q, hq, -⟩ := Phy.after_ok hs hf hsuppressed hwf (hcount _ hlen)
    exact ⟨q, hq, fun t ht => Phy.cycleAt_inShape hp hq ht⟩
  · obtain ⟨_, _, p, -, -, hp, htracks⟩ := HalfRatePhy.build_tracks hstart
    obtain ⟨q, hq⟩ := HalfRatePhy.after_complete hp htracks hl (hcount _ hlen)
    exact ⟨q, hq, fun t ht => HalfRatePhy.cycleAt_inShape hstart hq ht⟩

theorem sample_runs_complete :
    (∃ p q c, Phy.build (PhyConfig.ofClock 100000000) CasTable.mt53e256m16d1 = .ok p ∧
      p.after readRun = .ok q ∧ p.cycleAt readRun 5 = .ok c ∧ c.pads.InShape 8 16) ∧
    ∃ start q cycle, HalfRatePhy.build (PhyConfig.ofClock 100000000) CasTable.mt53e256m16d1 = .ok start ∧
      start.after halfRateRun = .ok q ∧ start.cycleAt halfRateRun 3 = .ok cycle ∧
      cycle.pads.second.InShape 4 16 := by
  obtain ⟨hplain, hhalf⟩ := built_runs_complete (PhyConfig.ofClock 100000000) CasTable.mt53e256m16d1
  refine ⟨?_, ?_⟩
  · obtain ⟨p, hp, -⟩ : ∃ p, Phy.build (PhyConfig.ofClock 100000000) CasTable.mt53e256m16d1 = .ok p ∧
        p.cycle = 0 := by
      decide +kernel
    obtain ⟨q, hq, hcycles⟩ := hplain p hp readRun (by decide) (by decide)
    obtain ⟨c, hc, hshape⟩ := hcycles 5 (by decide)
    exact ⟨p, q, c, hp, hq, hc, hshape⟩
  · obtain ⟨start, hstart, -⟩ : ∃ start,
        HalfRatePhy.build (PhyConfig.ofClock 100000000) CasTable.mt53e256m16d1 = .ok start ∧
          start.inner.cycle = 0 := by
      decide +kernel
    obtain ⟨q, hq, hcycles⟩ := hhalf start hstart halfRateRun (by decide) (by decide)
    obtain ⟨cycle, hcycle, -, hshape⟩ := hcycles 3 (by decide)
    exact ⟨start, q, cycle, hstart, hq, hcycle, hshape⟩

end DramPhy
