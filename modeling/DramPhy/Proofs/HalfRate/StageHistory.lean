import DramPhy.HalfRate.Phy
import DramPhy.Proofs.HalfRate.SerdesHistory
import DramPhy.Proofs.Pad.LaneWords
import DramPhy.Proofs.Phy.Cycle

/-! The registers of a 2:1 stage after any samples of the pads and any outputs of the
PHY behind it. The stage sends what the PHY drove in the cycle before, and the PHY
samples what the pads showed two cycles before. -/

namespace DramPhy

/-- What a cycle brings to a PHY behind a stage. -/
structure HalfRateInput where
  registers : CalibrationRegisters
  phases : List Phase
  pads : Halves PadInput

/-- The two samples of a lane; one that a bundle does not have is low. -/
def HalfRateInput.samples (i : HalfRateInput) (lane : PadLane) : Halves Word :=
  ⟨(i.pads.first.lane? lane).getD 0, (i.pads.second.lane? lane).getD 0⟩

def HalfRateInput.joined (databits : Nat) (i : HalfRateInput) : PadInput :=
  PadInput.ofLanes databits fun lane => (i.samples lane).join (2 * halfPhases)

/-- What a stage hands on before any sample has come through. -/
def PadInput.resting (config : PhyConfig) : PadInput :=
  PadInput.ofLanes config.databits fun _ => resetFill laneBits config.serdesReset

/-- What a stage sends before any output has come through. -/
def PadOutput.resting (config : PhyConfig) : PadOutput where
  phases := phasesPerCycle
  clk := resetFill laneBits config.serdesReset
  cke := resetFill phasesPerCycle config.serdesReset
  odt := resetFill phasesPerCycle config.serdesReset
  resetN := resetFill phasesPerCycle config.serdesReset
  cs := resetFill phasesPerCycle config.serdesReset
  ca := Vector.replicate caPads (resetFill phasesPerCycle config.serdesReset)
  dmi := List.replicate config.bytes (resetFill laneBits config.serdesReset)
  dmiOe := false
  dq := List.replicate config.databits (resetFill laneBits config.serdesReset)
  dqOe := false
  dqs := List.replicate config.bytes (resetFill laneBits config.serdesReset)
  dqsOe := false

/-- One of the two outputs that an output is sent in. -/
structure PadOutput.HalfOf (half out : PadOutput) (pick : Halves Word → Word) : Prop where
  phases_eq : half.phases = halfPhases
  lanes_eq : half.lanes = out.lanes
  words : ∀ lane ∈ out.lanes, ∃ width word, lane.width halfPhases = .ok width ∧
    out.lane lane = .ok word ∧ half.lane lane = .ok (pick (word.halves width))
  dmiOe_eq : half.dmiOe = out.dmiOe
  dqOe_eq : half.dqOe = out.dqOe
  dqsOe_eq : half.dqsOe = out.dqsOe

structure PadOutput.SplitsInto (out : PadOutput) (pads : Halves PadOutput) : Prop where
  first : pads.first.HalfOf out Halves.first
  second : pads.second.HalfOf out Halves.second
  lossless : ∀ lane ∈ out.lanes, ∃ width low high, lane.width halfPhases = .ok width ∧
    pads.first.lane lane = .ok low ∧ pads.second.lane lane = .ok high ∧
    out.lane lane = .ok (Halves.join ⟨low, high⟩ width)

theorem PadOutput.HalfOf.lane_eq {half out : PadOutput} {pick : Halves Word → Word}
    (h : half.HalfOf out pick) (lane : PadLane) {width : Nat} {word : Word} (hlane : lane ∈ out.lanes)
    (hwidth : lane.width halfPhases = .ok width) (hword : out.lane lane = .ok word) :
    half.lane lane = .ok (pick (word.halves width)) := by
  obtain ⟨width', word', hwidth', hword', hhalf⟩ := h.words lane hlane
  obtain rfl := Except.ok.inj (hwidth.symm.trans hwidth')
  obtain rfl := Except.ok.inj (hword.symm.trans hword')
  exact hhalf

def PadLane.halfWidth (lane : PadLane) : Nat :=
  if lane.doubleRate then 2 * halfPhases else halfPhases

/-- An output with the lanes of a width, none of whose words is lost in halves. -/
structure PadOutput.Fits (out : PadOutput) (databits : Nat) : Prop where
  lanes_eq : out.lanes = (PadOutput.blank halfPhases databits).lanes
  cut_eq : ∀ lane ∈ out.lanes, (out.word lane).cut (2 * lane.halfWidth) = out.word lane

structure HalfRatePhy.Follows (p : HalfRatePhy) (config : PhyConfig) (inputs : List HalfRateInput)
    (before : PadOutput) : Prop where
  databits_eq : p.inner.config.databits = config.databits
  serializers : p.serializers = (PadOutput.blank halfPhases config.databits).lanes.map
    fun lane => (lane, ⟨lane.halfWidth, before.word lane⟩)
  deserializers : p.deserializers = (PadInput.blank config.databits).lanes.map
    fun lane => (lane, Deserializer.fed (2 * halfPhases) config.serdesReset
      (inputs.map (·.samples lane)))
  dmiOe : p.dmiOe.Holds before.dmiOe
  dqOe : p.dqOe.Holds before.dqOe
  dqsOe : p.dqsOe.Holds before.dqsOe
  fits : before.Fits config.databits

variable {p : HalfRatePhy} {config : PhyConfig} {inputs : List HalfRateInput} {i : HalfRateInput}
  {before out : PadOutput} {inner : Phy} {c : PhyCycle}

theorem PadLane.width_half (lane : PadLane) : lane.width halfPhases = .ok lane.halfWidth := by
  cases lane <;> rfl

theorem PadLane.width_whole (lane : PadLane) :
    lane.width phasesPerCycle = .ok (2 * lane.halfWidth) := by
  cases lane <;> rfl

theorem PadLane.halfWidth_le (lane : PadLane) : lane.halfWidth ≤ 2 * halfPhases := by
  rw [PadLane.halfWidth]
  split_ifs <;> decide

theorem PadInput.blank_halfWidth {databits : Nat} {lane : PadLane}
    (h : lane ∈ (PadInput.blank databits).lanes) : lane.halfWidth = 2 * halfPhases := by
  cases lane <;> simp [PadInput.lanes, dataLanes] at h <;> rfl

theorem PadOutput.resting_word {lane : PadLane} (h : lane ∈ (PadOutput.resting config).lanes) :
    (PadOutput.resting config).word lane = resetFill (2 * lane.halfWidth) config.serdesReset := by
  have hentry : ∀ (n k : Nat) (word : Word), k < n → entry (List.replicate n word) k = .ok word := by
    intro n k word hk
    rw [entry_eq_ok, List.getElem?_replicate_of_lt hk]
  apply PadOutput.word_eq
  cases lane with
  | clk | cke | odt | resetN | cs => rfl
  | ca k =>
    have hk : k < caPads := by simpa [PadOutput.lanes, dataLanes] using h
    rw [PadOutput.lane, PadOutput.resting, Vector.toList_replicate, hentry _ _ _ hk]
    rfl
  | dmi k | dq k | dqs k => exact hentry _ _ _ (by simpa [PadOutput.lanes, dataLanes, PadOutput.resting] using h)

theorem PadOutput.resting_fits (config : PhyConfig) :
    (PadOutput.resting config).Fits config.databits := by
  refine ⟨?_, fun lane hm => ?_⟩
  · simp [PadOutput.lanes, PadOutput.resting, PadOutput.blank, PhyConfig.bytes]
  · rw [PadOutput.resting_word hm, resetFill_cut]

theorem HalfRatePhy.around_ok (inner : Phy) : ∃ p, HalfRatePhy.around inner = .ok p ∧
    p.inner = inner ∧ p.Follows inner.config [] (PadOutput.resting inner.config) := by
  have hroom : ∀ lane : PadLane, 2 * lane.halfWidth ≤ 64 := by
    intro lane
    have := lane.halfWidth_le
    simp only [halfPhases, phasesPerCycle] at this
    omega
  have hserializers : ((PadOutput.blank halfPhases inner.config.databits).lanes.mapM fun lane => do
      let width ← lane.width halfPhases
      return (lane, ← Serializer.make width inner.config.serdesReset)) =
      Except.ok (ε := Fault) ((PadOutput.blank halfPhases inner.config.databits).lanes.map fun lane =>
        (lane, ⟨lane.halfWidth, (PadOutput.resting inner.config).word lane⟩)) := by
    refine mapM_ok fun lane hm => ?_
    rw [← (PadOutput.resting_fits inner.config).lanes_eq] at hm
    rw [PadLane.width_half, ok_bind, Serializer.make_ok (hroom lane), PadOutput.resting_word hm]
    rfl
  have hdeserializers : ((PadInput.blank inner.config.databits).lanes.mapM fun lane => do
      let width ← lane.width halfPhases
      return (lane, ← Deserializer.make width inner.config.serdesReset)) =
      Except.ok (ε := Fault) ((PadInput.blank inner.config.databits).lanes.map fun lane =>
        (lane, Deserializer.fed (2 * halfPhases) inner.config.serdesReset [])) := by
    refine mapM_ok fun lane hm => ?_
    rw [PadLane.width_half, ok_bind, Deserializer.make_ok (hroom lane), PadInput.blank_halfWidth hm]
    rfl
  simp only [HalfRatePhy.around, hserializers, hdeserializers, ok_bind,
    DelayLine.make_ok (show 1 ≤ serializerCycles by decide)]
  exact ⟨_, rfl, rfl, rfl, rfl, rfl, DelayLine.fed_holds, DelayLine.fed_holds, DelayLine.fed_holds,
    PadOutput.resting_fits inner.config⟩

theorem HalfRatePhy.around_follows (h : HalfRatePhy.around inner = .ok p) :
    p.inner = inner ∧ p.Follows inner.config [] (PadOutput.resting inner.config) := by
  obtain ⟨_, haround, hfollows⟩ := HalfRatePhy.around_ok inner
  rwa [Except.ok.inj (h.symm.trans haround)]

theorem ago_joined (config : PhyConfig) (inputs : List HalfRateInput) (k : Nat) :
    ago (PadInput.resting config) (inputs.map (·.joined config.databits)) k =
      PadInput.ofLanes config.databits fun lane => ago (resetFill laneBits config.serdesReset)
        ((inputs.map (·.samples lane)).map (·.join (2 * halfPhases))) k := by
  simp only [ago, ← List.map_reverse, List.getElem?_map]
  cases inputs.reverse[k]? <;> rfl

section

variable (h : p.Follows config inputs before)

include h

theorem HalfRatePhy.Follows.received_ok : p.received =
    .ok (ago (PadInput.resting config) (inputs.map (·.joined config.databits)) 1) := by
  have hword : ∀ lane, (Deserializer.fed (2 * halfPhases) config.serdesReset
      (inputs.map (·.samples lane))).output = .ok (ago (resetFill laneBits config.serdesReset)
        ((inputs.map (·.samples lane)).map (·.join (2 * halfPhases))) 1) :=
    fun lane => Deserializer.fed_output
  rw [HalfRatePhy.received, h.deserializers, h.databits_eq, List.foldlM_map]
  simp only [hword, ok_bind]
  rw [ago_joined, ← PadInput.fill_blank, List.foldlM_pure]
  rfl

theorem HalfRatePhy.Follows.driveHalf_ok (pick : Halves Word → Word) :
    ∃ half, p.driveHalf pick = .ok half ∧ half.HalfOf before pick := by
  have hwidth : ∀ lane : PadLane, lane.halfWidth < 64 := by
    intro lane
    have := lane.halfWidth_le
    simp only [halfPhases, phasesPerCycle] at this
    omega
  obtain ⟨filled, hfilled, hlanes, hphases, hwords⟩ :=
    PadOutput.foldlM_setLane (PadOutput.blank halfPhases config.databits)
      (fun lane => pick ((before.word lane).halves lane.halfWidth)) fun lane hm => hm
  have hdrive : p.serializers.foldlM (fun out s => do
      let halves ← s.2.output
      out.setLane s.1 (pick halves)) (PadOutput.blank halfPhases config.databits) = .ok filled := by
    rw [h.serializers, List.foldlM_map, ← hfilled]
    simp only [Serializer.output_ok (hwidth _), ok_bind]
  refine ⟨{ filled with dmiOe := before.dmiOe, dqOe := before.dqOe, dqsOe := before.dqsOe }, ?_,
    hphases, hlanes.trans h.fits.lanes_eq.symm, fun lane hm => ?_, rfl, rfl, rfl⟩
  · simp only [HalfRatePhy.driveHalf, h.databits_eq, hdrive, ok_bind, h.dmiOe.output_ok,
      h.dqOe.output_ok, h.dqsOe.output_ok]
    rfl
  · refine ⟨_, _, lane.width_half, PadOutput.lane_word hm, ?_⟩
    rw [h.fits.lanes_eq] at hm
    have hlane := hwords lane
    rw [if_pos hm] at hlane
    cases lane <;> exact hlane

theorem HalfRatePhy.Follows.drives : ∃ pads : Halves PadOutput, p.driveHalf Halves.first = .ok pads.first ∧
    p.driveHalf Halves.second = .ok pads.second ∧ before.SplitsInto pads := by
  obtain ⟨first, hfirst, hfirstHalf⟩ := h.driveHalf_ok Halves.first
  obtain ⟨second, hsecond, hsecondHalf⟩ := h.driveHalf_ok Halves.second
  refine ⟨⟨first, second⟩, hfirst, hsecond, hfirstHalf, hsecondHalf, fun lane hm => ?_⟩
  obtain ⟨width, word, hwidth, hword, hlow⟩ := hfirstHalf.words lane hm
  obtain ⟨_, _, hwidth', hword', hhigh⟩ := hsecondHalf.words lane hm
  obtain rfl := Except.ok.inj (hwidth.symm.trans hwidth')
  obtain rfl := Except.ok.inj (hword.symm.trans hword')
  refine ⟨width, _, _, hwidth, hlow, hhigh, ?_⟩
  have hfits := h.fits.cut_eq lane hm
  rw [PadOutput.word_eq hword, ← Except.ok.inj (hwidth.symm.trans lane.width_half)] at hfits
  rw [hword]
  exact congrArg Except.ok (Halves.join_halves hfits).symm

theorem HalfRatePhy.Follows.serializers_tick (hfits : out.Fits config.databits) :
    (p.serializers.mapM fun (lane, s) => do
      let word ← out.lane lane
      return (lane, s.tick word)) = Except.ok (ε := Fault)
      ((PadOutput.blank halfPhases config.databits).lanes.map fun lane =>
        (lane, ⟨lane.halfWidth, out.word lane⟩)) := by
  rw [h.serializers]
  refine mapM_map_ok fun lane hm => ?_
  rw [← hfits.lanes_eq] at hm
  simp only [PadOutput.lane_word hm, ok_bind, Serializer.tick, hfits.cut_eq lane hm]
  rfl

theorem HalfRatePhy.Follows.deserializers_tick (i : HalfRateInput) :
    (p.deserializers.mapM fun (lane, d) => do
      let halves := ⟨(i.pads.first.lane? lane).getD 0, (i.pads.second.lane? lane).getD 0⟩
      return (lane, ← d.tick halves)) = Except.ok (ε := Fault)
      ((PadInput.blank config.databits).lanes.map fun lane =>
        (lane, Deserializer.fed (2 * halfPhases) config.serdesReset
          ((inputs ++ [i]).map (·.samples lane)))) := by
  rw [h.deserializers]
  refine mapM_map_ok fun lane _ => ?_
  have htick : (Deserializer.fed (2 * halfPhases) config.serdesReset (inputs.map (·.samples lane))).tick
      (i.samples lane) = .ok (Deserializer.fed (2 * halfPhases) config.serdesReset
        ((inputs ++ [i]).map (·.samples lane))) := by
    rw [Deserializer.fed_tick (by decide), List.map_append, List.map_singleton]
  change (do return (lane, ← Deserializer.tick _ (i.samples lane))) = _
  rw [htick]
  rfl

/-- A cycle of the stage is a cycle of the PHY behind it, and nothing else can fail. -/
theorem HalfRatePhy.Follows.step_ok (hc : p.inner.step i.phases
      (ago (PadInput.resting config) (inputs.map (·.joined config.databits)) 1) = .ok c)
    (hconfig : c.phy.config.databits = config.databits) (hfits : c.pads.Fits config.databits) :
    ∃ cycle, p.step i.phases i.pads = .ok cycle ∧ cycle.phy.inner = c.phy ∧ cycle.phases = c.phases ∧
      before.SplitsInto cycle.pads ∧ cycle.phy.Follows config (inputs ++ [i]) c.pads := by
  obtain ⟨pads, hfirst, hsecond, hsplits⟩ := h.drives
  have hserializers := h.serializers_tick hfits
  have hdeserializers := h.deserializers_tick i
  simp only [HalfRatePhy.step, h.received_ok, ok_bind, hc, hfirst, hsecond, hserializers, hdeserializers]
  exact ⟨_, rfl, rfl, rfl, hsplits, hconfig, rfl, rfl, h.dmiOe.tick _, h.dqOe.tick _, h.dqsOe.tick _,
    hfits⟩

end

end DramPhy
