import DramPhy.Proofs.Phy.ReadTiming
import DramPhy.Proofs.Phy.WriteLanes

/-! The read lanes of a byte under calibration. Every lane writes its bits into phase
words that it shares with all the others, and finds them there again; whatever moved its
bitslip, a bit of the read data tells which half tick of which pad word it was. Only the
low half ticks of a pad word ever get that far. -/

namespace DramPhy

/-- Half tick `j` of a lane in the read data of the phases. -/
def ReadBit (phases : List Phase) (width lane j : Nat) (b : Bool) : Prop :=
  ∃ ph, phases[j / 2]? = some ph ∧ ph.rddata.getLsbD (beatBit width lane j) = b

/-- The pad words without what is above their half ticks. -/
def PadInput.trimmed (pads : PadInput) : PadInput :=
  { pads with dq := pads.dq.map fun word => Word.cut word laneBits }

def CycleInput.trimmed (i : CycleInput) : CycleInput := { i with pads := i.pads.trimmed }

variable {p q : Phy} {config : PhyConfig} {table : CasTable} {settings : Settings}
  {inputs : List CycleInput} {i : CycleInput} {byte lane j t : Nat}

theorem readBit_of_laneWord {phases : List Phase} {width : Nat} {b : Bool}
    (hl : phases.length = phasesPerCycle) (hj : j < laneBits)
    (hb : (laneWord phases Phase.rddata width lane).getLsbD j = b) :
    ReadBit phases width lane j b := by
  have hhalf : j / 2 < phases.length := by
    simp only [hl, laneBits, phasesPerCycle] at hj ⊢
    omega
  refine ⟨phases[j / 2], List.getElem?_eq_getElem hhalf, ?_⟩
  rw [← hb, laneWord_getLsbD (by rw [hl]; decide) Phase.rddata width lane (List.getElem?_eq_getElem hhalf)]

theorem sampled_resets (hlane : lane / 8 = byte) (inputs : List CycleInput) :
    (inputs.map (·.sampled lane)).map (·.1) = inputs.map fun i => (i.readMoved byte).reset := by
  simp [Function.comp_def, CycleInput.sampled, hlane]

section

variable (h : p.Follows config settings inputs) (hc : p.Calibrated inputs)
  (hbyte : byte < config.bytes) (hlane : lane / 8 = byte)

include h hc hbyte hlane

theorem Phy.Follows.readSlip_ok :
    p.readSlip lane = .ok (slipAfter (inputs.map fun i => i.readMoved byte)) :=
  hc.dqRead.slip_eq_ok h.dqRead (dqBytes_of_byte hbyte hlane)

/-- The read data of a lane are the window of its bitslip on the pad words. -/
theorem Phy.Follows.read_window (hs : Phy.Sound config settings)
    (hl : i.phases.length = phasesPerCycle) :
    ∃ s : BitSlip, laneWord (p.returned i) Phase.rddata config.databits lane = s.window ∧
      s.Carries laneBits (received (inputs.map (·.sampled lane))) ∧
      s.slip = slipAfter (inputs.map fun i => i.readMoved byte) := by
  obtain ⟨own, hown, hsame⟩ := h.dqRead.exists_lane (dqBytes_of_byte hbyte hlane)
  refine ⟨own.slip, h.returned_laneWord hs hl hown, h.dqRead.carries lane own hown, ?_⟩
  rw [hc.dqRead own (List.mem_of_getElem? hown), hsame]

/-- What the pads showed before the last reset of the byte is forgotten. -/
theorem Phy.Follows.read_cleared (hj : j < laneBits) (hs : Phy.Sound config settings)
    (hl : i.phases.length = phasesPerCycle)
    (hpos : laneBits * inputs.length + j <
      laneBits * lastReset (inputs.map fun i => (i.readMoved byte).reset) + laneBits +
        slipAfter (inputs.map fun i => i.readMoved byte)) :
    (laneWord (p.returned i) Phase.rddata config.databits lane).getLsbD j = false := by
  obtain ⟨s, hword, hcarries, hslip⟩ := h.read_window hc hbyte hlane hs hl
  rw [hword]
  refine hcarries.window_cleared hj ?_
  rwa [sampled_resets hlane, List.length_map, hslip]

/-- The read data of a lane are what the pads showed, late by a cycle and the slip. -/
theorem Phy.Follows.read_since (hj : j < laneBits) (pos : Nat) (hs : Phy.Sound config settings)
    (hwf : ∀ i ∈ inputs, i.WellFormed config.databits) (hl : i.phases.length = phasesPerCycle)
    (hpos : pos + laneBits + slipAfter (inputs.map fun i => i.readMoved byte) =
      laneBits * inputs.length + j)
    (hlive : laneBits * lastReset (inputs.map fun i => (i.readMoved byte).reset) ≤ pos) :
    ∃ x word, inputs[pos / laneBits]? = some x ∧ x.pads.dq[lane]? = some word ∧
      (laneWord (p.returned i) Phase.rddata config.databits lane).getLsbD j =
        word.getLsbD (pos % laneBits) := by
  obtain ⟨s, hshown, hcarries, hslip⟩ := h.read_window hc hbyte hlane hs hl
  have hlt : pos / laneBits < inputs.length := by
    rw [Nat.div_lt_iff_lt_mul (by decide), Nat.mul_comm]
    omega
  obtain ⟨x, hx⟩ : ∃ x, inputs[pos / laneBits]? = some x := ⟨_, List.getElem?_eq_getElem hlt⟩
  have hwidth := (hwf x (List.mem_of_getElem? hx)).2
  obtain ⟨word, hword⟩ : ∃ word, x.pads.dq[lane]? = some word :=
    ⟨_, List.getElem?_eq_getElem (by
      rw [hwidth]
      exact (dqBytes_getElem? (dqBytes_of_byte hbyte hlane)).1)⟩
  refine ⟨x, word, hx, hword, ?_⟩
  rw [hshown, hcarries.window_since hj pos]
  · rw [List.getElem?_map, hx, Option.map_some, Option.any_some, CycleInput.sampled, hword,
      Option.getD_some]
  · rwa [List.length_map, hslip]
  · rwa [sampled_resets hlane]

end

/-- What cycle `t` returns on the lanes of a byte, where `before` is the PHY as the cycle finds
it: every half tick of the pads since the last reset, late by the slip, and nothing older. -/
structure ReadLanes (config : PhyConfig) (inputs : List CycleInput) (t byte slip : Nat)
    (before : Phy) (phases : List Phase) : Prop where
  slip_lt : slip < laneBits
  readSlip : ∀ lane, lane / 8 = byte → before.readSlip lane = .ok slip
  cleared : ∀ lane j, lane / 8 = byte → j < laneBits →
    laneBits * t + j <
      laneBits * lastReset ((inputs.take t).map fun i => (i.readMoved byte).reset) + laneBits + slip →
    ReadBit phases config.databits lane j false
  since : ∀ lane j pos, lane / 8 = byte → j < laneBits → pos + laneBits + slip = laneBits * t + j →
    laneBits * lastReset ((inputs.take t).map fun i => (i.readMoved byte).reset) ≤ pos →
    ∃ i word, inputs[pos / laneBits]? = some i ∧ i.pads.dq[lane]? = some word ∧
      ReadBit phases config.databits lane j (word.getLsbD (pos % laneBits))

theorem ByteSlip.tick_cut (lane : ByteSlip) (move : Nat → Checked SlipMove) (input : Word)
    (hwidth : lane.slip.width = laneBits) :
    lane.tick move (Word.cut input laneBits) = lane.tick move input := by
  simp only [ByteSlip.tick, BitSlip.tick, hwidth, Word.cut_cut]

theorem LaneBank.Follows.tick_cut {bank : LaneBank} {bytes : List Nat} {words : Nat → List Word}
    (h : bank.Follows bytes words) (move : Nat → Checked SlipMove) (given : List Word) :
    bank.tick move (given.map fun word => Word.cut word laneBits) = bank.tick move given := by
  have hlane : ∀ x ∈ bank.lanes.zip given,
      x.1.tick move (Word.cut x.2 laneBits) = x.1.tick move x.2 := by
    intro x hx
    obtain ⟨k, hk⟩ := List.mem_iff_getElem?.mp (List.of_mem_zip hx).1
    exact x.1.tick_cut move x.2 (h.carries k x.1 hk).width_eq
  rw [LaneBank.tick, LaneBank.tick, List.zip_map_right, List.mapM_map]
  exact congrArg (· >>= fun lanes => pure (LaneBank.mk lanes)) (mapM_congr hlane)

theorem Phy.Follows.step_trimmed (h : p.Follows config settings inputs) (phases : List Phase)
    (pads : PadInput) : p.step phases pads.trimmed = p.step phases pads := by
  have hclock (calibration : CalibrationSample) :
      p.clockIn calibration phases pads.trimmed = p.clockIn calibration phases pads := by
    simp only [Phy.clockIn, PadInput.trimmed, h.dqRead.tick_cut]
  have hwidth : pads.trimmed.dq.length = p.config.databits ↔ pads.dq.length = p.config.databits := by
    rw [PadInput.trimmed, List.length_map]
  simp only [Phy.step, require_congr hwidth, hclock]

theorem Phy.Follows.cycleOn_trimmed (h : p.Follows config settings inputs) (i : CycleInput) :
    p.cycleOn i.trimmed = p.cycleOn i := by
  rw [Phy.cycleOn, Phy.cycleOn, CycleInput.trimmed]
  exact (h.of_registers i.registers).step_trimmed i.phases i.pads

theorem Phy.after_trimmed (hs : Phy.Sound config settings) (hp : p.Follows config settings [])
    (inputs : List CycleInput) : p.after (inputs.map CycleInput.trimmed) = p.after inputs := by
  induction inputs using List.reverseRecOn with
  | nil => rfl
  | append_singleton inputs i ih =>
    rw [List.map_append, List.map_singleton, Phy.after_append, Phy.after_append, ih]
    cases hq : p.after inputs with
    | error e => rw [error_bind, error_bind]
    | ok q => rw [ok_bind, ok_bind, (Phy.after_follows hs hp hq).1.cycleOn_trimmed]

theorem Phy.cycleAt_trimmed (hs : Phy.Sound config settings) (hp : p.Follows config settings [])
    (inputs : List CycleInput) (t : Nat) :
    p.cycleAt (inputs.map CycleInput.trimmed) t = p.cycleAt inputs t := by
  rw [Phy.cycleAt, Phy.cycleAt, ← List.map_take, Phy.after_trimmed hs hp, entry, entry,
    List.getElem?_map]
  cases hq : p.after (inputs.take t) with
  | error e => rw [error_bind, error_bind]
  | ok q =>
    cases hi : inputs[t]? with
    | none => rfl
    | some i => exact (Phy.after_follows hs hp hq).1.cycleOn_trimmed i

/-- Under any calibration the read data are the half ticks of the pads since the last reset,
and nothing else of the pads is ever seen. -/
theorem read_lanes_recall (inputs : List CycleInput) (h : Phy.build config table = .ok p) :
    ((∀ i ∈ inputs, i.WellFormed config.databits) → phasesPerCycle * inputs.length < Count.limit →
      ∃ q, p.after inputs = .ok q) ∧
    (∀ q, p.after inputs = .ok q → ∀ t, t < inputs.length →
      ∃ before c, p.after (inputs.take t) = .ok before ∧ p.cycleAt inputs t = .ok c ∧
        ∀ byte, byte < config.bytes →
          ∃ slip, ReadLanes config inputs t byte slip before c.phases) ∧
    ∀ others : List CycleInput, others.map CycleInput.trimmed = inputs.map CycleInput.trimmed →
      p.after others = p.after inputs ∧ ∀ t, p.cycleAt others t = p.cycleAt inputs t := by
  obtain ⟨-, hs, hf, hsuppressed⟩ := Phy.build_follows h
  refine ⟨fun hwf hlen => ?_, fun q hq t ht => ?_, fun others hsame => ⟨?_, fun t => ?_⟩⟩
  · obtain ⟨q, hq, -⟩ := Phy.after_ok hs hf hsuppressed hwf hlen
    exact ⟨q, hq⟩
  · obtain ⟨before, c, hbefore, hcycle, hc⟩ := Phy.after_take hq ht
    obtain ⟨-, hfollows, hcalibrated⟩ := Phy.build_after h hbefore
    obtain ⟨hi, -, rfl⟩ := (hfollows.cycleOn_eq_ok hs).mp hcycle
    have hwf := (Phy.after_follows hs hf hq).2
    have hlen : (inputs.take t).length = t := by
      rw [List.length_take]
      omega
    have hphases : (before.returned inputs[t]).length = phasesPerCycle := by
      rw [Phy.returned_length]
      exact hi.1
    refine ⟨before, _, hbefore, hc, fun byte hbyte => ⟨_, slipAfter_lt _,
      fun lane hlane => hfollows.readSlip_ok hcalibrated hbyte hlane,
      fun lane j hlane hj hpos => ?_, fun lane j pos hlane hj hpos hlive => ?_⟩⟩
    · exact readBit_of_laneWord hphases hj
        (hfollows.read_cleared hcalibrated hbyte hlane hj hs hi.1 (by rwa [hlen]))
    · obtain ⟨x, word, hx, hword, hbit⟩ := hfollows.read_since hcalibrated hbyte hlane hj pos hs
        (fun i hm => hwf i (List.mem_of_mem_take hm)) hi.1 (by rwa [hlen]) hlive
      have hu : pos / laneBits < t := by
        have := (List.getElem?_eq_some_iff.mp hx).1
        rwa [hlen] at this
      rw [List.getElem?_take_of_lt hu] at hx
      exact ⟨x, word, hx, hword, readBit_of_laneWord hphases hj hbit⟩
  · rw [← Phy.after_trimmed hs hf others, hsame, Phy.after_trimmed hs hf]
  · rw [← Phy.cycleAt_trimmed hs hf others, hsame, Phy.cycleAt_trimmed hs hf]

/-- The read slip of byte 0 is advanced once, then lane 3 shows a word. -/
def shownRun (word : Word) : List CycleInput :=
  let idle := List.replicate 8 Phase.idle
  let quiet := CalibrationRegisters.make 0 0
  [⟨{ quiet with bytes := 1, read := ⟨false, true⟩ }, idle, PadInput.blank 16⟩,
    ⟨quiet, idle, { PadInput.blank 16 with dq := (List.replicate 16 0).set 3 word }⟩,
    ⟨quiet, idle, PadInput.blank 16⟩]

theorem stray_bit_unseen :
    ∃ p, Phy.build (PhyConfig.ofClock 100000000) CasTable.mt53e256m16d1 = .ok p ∧
      ∃ c, p.cycleAt (shownRun 0x10008) 2 = .ok c ∧ ReadBit c.phases 16 3 4 true ∧
        p.cycleAt (shownRun 8) 2 = .ok c := by
  obtain ⟨p, hp, slipped, hslipped, hslip⟩ : ∃ p,
      Phy.build (PhyConfig.ofClock 100000000) CasTable.mt53e256m16d1 = .ok p ∧
        ∃ before, p.after ((shownRun 0x10008).take 2) = .ok before ∧ before.readSlip 3 = .ok 1 := by
    decide +kernel
  obtain ⟨hruns, hreturns, hstray⟩ := read_lanes_recall (shownRun 0x10008) hp
  obtain ⟨q, hq⟩ := hruns (by decide) (by decide)
  obtain ⟨before, c, hbefore, hc, hbytes⟩ := hreturns q hq 2 (by decide)
  obtain ⟨slip, hlanes⟩ := hbytes 0 (by decide)
  have hsame : before = slipped := Except.ok.inj (hbefore.symm.trans hslipped)
  have hone : slip = 1 := by
    have := hlanes.readSlip 3 (by decide)
    rw [hsame, hslip] at this
    exact (Except.ok.inj this).symm
  subst hone
  obtain ⟨i, word, hi, hword, hbit⟩ :=
    hlanes.since 3 4 19 (by decide) (by decide) (by decide) (by decide)
  obtain rfl : (shownRun 0x10008)[1] = i := Option.some.inj hi
  obtain rfl : 0x10008 = word := Option.some.inj hword
  exact ⟨p, hp, c, hc, hbit, ((hstray (shownRun 8) rfl).2 2).trans hc⟩

end DramPhy
