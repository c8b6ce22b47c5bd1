import DramPhy.Proofs.Phy.CalibrationHistory

/-! The write lanes of a byte under calibration. Data, mask and strobe go through
bitslips of their own; whatever moved these, a bit on the pads tells which half tick
of which cycle it was, and it is the same for all lanes of the byte. -/

namespace DramPhy

def PadOutput.bit (out : PadOutput) (lane : PadLane) (i : Nat) : Checked Bool := do
  let word ← out.lane lane
  word.bit i

/-- The strobe word that a cycle chooses, before it goes through the bitslips. -/
def Phy.chosenStrobe (p : Phy) (i : CycleInput) : Checked Word := do
  let frame ← p.framing.frame i.writing i.leveling
  return i.strobeWord p.config.patterns frame

def Phy.strobeAt (p : Phy) (inputs : List CycleInput) (u : Nat) : Checked Word := do
  let q ← p.after (inputs.take u)
  let i ← entry inputs u
  q.chosenStrobe i

/-- Half tick `j` of the lanes of a byte. -/
structure ByteBit (config : PhyConfig) (byte : Nat) (pads : PadOutput) (j : Nat)
    (data : Nat → Bool) (mask strobe : Bool) : Prop where
  dq : ∀ lane, lane / 8 = byte → pads.bit (.dq lane) j = .ok (data lane)
  dmi : config.maskedWrite = true → pads.bit (.dmi byte) j = .ok mask
  dqs : pads.bit (.dqs byte) j = .ok strobe

variable {p q : Phy} {config : PhyConfig} {table : CasTable} {settings : Settings}
  {inputs : List CycleInput} {i : CycleInput} {byte j t u : Nat}

theorem Phase.mask_getLsbD (ph : Phase) (k : Nat) : ph.mask.getLsbD k = ph.wrdataMask.getLsbD k := by
  rw [Phase.mask, BitVec.getLsbD_setWidth]
  by_cases hk : k < 64
  · rw [decide_eq_true hk, Bool.true_and]
  · rw [BitVec.getLsbD_of_ge ph.wrdataMask k (by omega), Bool.and_false]

/-- A pad shows the window of a bitslip on the words it was given. -/
def PadOutput.Sends (out : PadOutput) (lane : PadLane) (slip : Nat) (given : List (Bool × Word)) :
    Prop :=
  ∃ s : BitSlip, out.lane lane = .ok s.window ∧ s.Carries laneBits (received given) ∧ s.slip = slip

theorem PadOutput.bit_ok {out : PadOutput} {lane : PadLane} {word : Word}
    (h : out.lane lane = .ok word) (hj : j < laneBits) :
    out.bit lane j = .ok (word.getLsbD j) := by
  rw [PadOutput.bit, h, ok_bind, Word.bit, if_pos (Nat.lt_trans hj (by decide))]

section

variable {out : PadOutput} {lane : PadLane} {slip : Nat} {given : List (Bool × Word)}
  {resets : List Bool} (h : out.Sends lane slip given) (hresets : given.map (·.1) = resets)
  (hj : j < laneBits)

include h hresets hj

theorem PadOutput.Sends.bit_cleared
    (hpos : laneBits * given.length + j < laneBits * lastReset resets + laneBits + slip) :
    out.bit lane j = .ok false := by
  obtain ⟨s, hlane, hcarries, rfl⟩ := h
  subst hresets
  rw [PadOutput.bit_ok hlane hj, hcarries.window_cleared hj hpos]

theorem PadOutput.Sends.bit_since (pos : Nat)
    (hpos : pos + laneBits + slip = laneBits * given.length + j)
    (hlive : laneBits * lastReset resets ≤ pos) :
    out.bit lane j =
      .ok (given[pos / laneBits]?.any fun x => x.2.getLsbD (pos % laneBits)) := by
  obtain ⟨s, hlane, hcarries, rfl⟩ := h
  subst hresets
  rw [PadOutput.bit_ok hlane hj, hcarries.window_since hj pos hpos hlive]

end

theorem LaneBank.Follows.lane_window {bank : LaneBank} {bytes : List Nat} {words : Nat → List Word}
    {slip : Nat → Nat} {k : Nat} (hf : bank.Follows bytes words) (hs : bank.SlippedBy slip)
    (hbyte : bytes[k]? = some byte) :
    ∃ s : BitSlip, bank.windows[k]? = some s.window ∧ s.Carries laneBits (words k) ∧
      s.slip = slip byte := by
  obtain ⟨own, hown, hsame⟩ := hf.exists_lane hbyte
  refine ⟨own.slip, ?_, hf.carries k own hown, ?_⟩
  · rw [LaneBank.windows, List.getElem?_map, hown, Option.map_some]
  · rw [hs own (List.mem_of_getElem? hown), hsame]

theorem dqBytes_of_byte (hbyte : byte < config.bytes) {lane : Nat} (hlane : lane / 8 = byte) :
    (dqBytes config.databits)[lane]? = some byte := by
  have hlt : lane < config.databits := by
    simp only [PhyConfig.bytes, byteLanes] at hbyte
    omega
  simp [dqBytes, hlt, hlane]

theorem written_resets (databits : Nat) {lane : Nat} (hlane : lane / 8 = byte)
    (inputs : List CycleInput) : (inputs.map (·.written databits lane)).map (·.1) =
      inputs.map fun i => (i.writeMoved byte).reset := by
  simp [Function.comp_def, CycleInput.written, hlane]

theorem masked_resets (bytes byte : Nat) (inputs : List CycleInput) :
    (inputs.map (·.masked bytes byte)).map (·.1) =
      inputs.map fun i => (i.writeMoved byte).reset := by
  simp [Function.comp_def, CycleInput.masked]

theorem writeFrames_length (tap : Nat) (inputs : List CycleInput) :
    (writeFrames tap inputs).length = inputs.length := by
  simp [writeFrames]

theorem strobed_resets (patterns : StrobePatterns) (tap byte : Nat) (inputs : List CycleInput) :
    ((inputs.zip (writeFrames tap inputs)).map (CycleInput.strobed patterns byte)).map (·.1) =
      inputs.map fun i => (i.writeMoved byte).reset := by
  have hfst : (inputs.zip (writeFrames tap inputs)).map Prod.fst = inputs :=
    List.map_fst_zip (Nat.le_of_eq (writeFrames_length tap inputs).symm)
  conv_rhs => rw [← hfst]
  rw [List.map_map, List.map_map]
  rfl

theorem strobed_getElem? (patterns : StrobePatterns) (tap byte : Nat) (hi : inputs[u]? = some i) :
    ((inputs.zip (writeFrames tap inputs)).map (CycleInput.strobed patterns byte))[u]? =
      some ((i.writeMoved byte).reset, i.strobeWord patterns (frameAfter tap (inputs.take u) i)) := by
  have hlt : u < inputs.length := (List.getElem?_eq_some_iff.mp hi).1
  have htake : inputs.take (u + 1) = inputs.take u ++ [i] := by
    rw [List.take_add_one, hi, Option.toList_some]
  have hframe : (writeFrames tap inputs)[u]? = some (frameAfter tap (inputs.take u) i) := by
    rw [writeFrames, List.getElem?_map, List.getElem?_range hlt, Option.map_some, htake, hi,
      List.map_append, List.map_singleton, Option.any_some]
    rfl
  have hzip : (inputs.zip (writeFrames tap inputs))[u]? =
      some (i, frameAfter tap (inputs.take u) i) :=
    List.getElem?_zip_eq_some.mpr ⟨hi, hframe⟩
  rw [List.getElem?_map, hzip, Option.map_some]
  rfl

theorem Phy.Follows.chosenStrobe_ok (h : p.Follows config settings inputs)
    (hs : Phy.Sound config settings) (i : CycleInput) : p.chosenStrobe i =
      .ok (i.strobeWord config.patterns (frameAfter settings.timing.writeTap inputs i)) := by
  rw [Phy.chosenStrobe, h.framing, WriteFraming.fed_frame hs.tap_lt, ok_bind, h.config_eq]
  rfl

section

variable (h : p.Follows config settings inputs) (hc : p.Calibrated inputs)
  (hbyte : byte < config.bytes)

include h hc hbyte

theorem Phy.Follows.dq_sends {lane : Nat} (hlane : lane / 8 = byte) :
    p.pads.Sends (.dq lane) (slipAfter (inputs.map fun i => i.writeMoved byte))
      (inputs.map (·.written config.databits lane)) := by
  obtain ⟨s, hwindow, hcarries, hslip⟩ :=
    h.dqWrite.lane_window hc.dqWrite (dqBytes_of_byte hbyte hlane)
  exact ⟨s, entry_eq_ok.mpr hwindow, hcarries, hslip⟩

theorem Phy.Follows.dmi_sends (hmask : config.maskedWrite = true) :
    p.pads.Sends (.dmi byte) (slipAfter (inputs.map fun i => i.writeMoved byte))
      (inputs.map (·.masked config.bytes byte)) := by
  obtain ⟨s, hwindow, hcarries, hslip⟩ := h.dmiWrite.lane_window hc.dmiWrite
    (show _ = some byte by rw [if_pos hmask, List.getElem?_range hbyte])
  have hdmi : p.pads.dmi[byte]? = some s.window := by
    rw [Phy.pads, h.config_eq, if_pos hmask, hwindow]
  exact ⟨s, entry_eq_ok.mpr hdmi, hcarries, hslip⟩

theorem Phy.Follows.dqs_sends :
    p.pads.Sends (.dqs byte) (slipAfter (inputs.map fun i => i.writeMoved byte))
      ((inputs.zip (writeFrames settings.timing.writeTap inputs)).map
        (CycleInput.strobed config.patterns byte)) := by
  obtain ⟨s, hwindow, hcarries, hslip⟩ :=
    h.dqsWrite.lane_window hc.dqsWrite (List.getElem?_range hbyte)
  exact ⟨s, entry_eq_ok.mpr hwindow, hcarries, hslip⟩

/-- What a byte was given before its last reset is on none of its lanes. -/
theorem Phy.Follows.byteBit_cleared (hj : j < laneBits)
    (hpos : laneBits * inputs.length + j <
      laneBits * lastReset (inputs.map fun i => (i.writeMoved byte).reset) + laneBits +
        slipAfter (inputs.map fun i => i.writeMoved byte)) :
    ByteBit config byte p.pads j (fun _ => false) false false := by
  refine ⟨fun lane hlane => ?_, fun hmask => ?_, ?_⟩
  · exact (h.dq_sends hc hbyte hlane).bit_cleared (written_resets _ hlane _) hj
      (by rwa [List.length_map])
  · exact (h.dmi_sends hc hbyte hmask).bit_cleared (masked_resets _ _ _) hj
      (by rwa [List.length_map])
  · refine (h.dqs_sends hc hbyte).bit_cleared (strobed_resets _ _ _ _) hj ?_
    rwa [List.length_map, List.length_zip, writeFrames_length, Nat.min_self]

/-- What it was given since then is on all of them at once, late by the slip of the byte. -/
theorem Phy.Follows.byteBit_since (hwf : ∀ i ∈ inputs, i.WellFormed config.databits)
    (hj : j < laneBits) {pos : Nat}
    (hpos : pos + laneBits + slipAfter (inputs.map fun i => i.writeMoved byte) =
      laneBits * inputs.length + j)
    (hlive : laneBits * lastReset (inputs.map fun i => (i.writeMoved byte).reset) ≤ pos) :
    ∃ i ph, inputs[pos / laneBits]? = some i ∧ i.phases[pos % laneBits / 2]? = some ph ∧
      ByteBit config byte p.pads j
        (fun lane => ph.wrdata.getLsbD (beatBit config.databits lane (pos % laneBits)))
        (ph.wrdataMask.getLsbD (beatBit config.bytes byte (pos % laneBits)))
        ((i.strobeWord config.patterns (frameAfter settings.timing.writeTap
          (inputs.take (pos / laneBits)) i)).getLsbD (pos % laneBits)) := by
  have hmod : pos % laneBits < laneBits := Nat.mod_lt _ (by decide)
  have hlt : pos / laneBits < inputs.length := by
    rw [Nat.div_lt_iff_lt_mul (by decide), Nat.mul_comm]
    omega
  obtain ⟨i, hi⟩ : ∃ i, inputs[pos / laneBits]? = some i := ⟨_, List.getElem?_eq_getElem hlt⟩
  have hlen := (hwf i (List.mem_of_getElem? hi)).1
  have hroom : i.phases.length ≤ 32 := by rw [hlen]; decide
  obtain ⟨ph, hph⟩ : ∃ ph, i.phases[pos % laneBits / 2]? = some ph :=
    ⟨_, List.getElem?_eq_getElem (by
      simp only [hlen, laneBits, phasesPerCycle] at hmod ⊢
      omega)⟩
  refine ⟨i, ph, hi, hph, fun lane hlane => ?_, fun hmask => ?_, ?_⟩
  · rw [(h.dq_sends hc hbyte hlane).bit_since (written_resets _ hlane _) hj pos
        (by rwa [List.length_map]) hlive,
      List.getElem?_map, hi, Option.map_some, Option.any_some, CycleInput.written,
      laneWord_getLsbD hroom Phase.wrdata _ _ hph]
  · rw [(h.dmi_sends hc hbyte hmask).bit_since (masked_resets _ _ _) hj pos
        (by rwa [List.length_map]) hlive,
      List.getElem?_map, hi, Option.map_some, Option.any_some, CycleInput.masked,
      laneWord_getLsbD hroom Phase.mask _ _ hph, Phase.mask_getLsbD]
  · rw [(h.dqs_sends hc hbyte).bit_since (strobed_resets _ _ _ _) hj pos _ hlive,
      strobed_getElem? _ _ _ hi, Option.any_some]
    rwa [List.length_map, List.length_zip, writeFrames_length, Nat.min_self]

end

theorem Phy.Follows.writeSlip_ok (h : p.Follows config settings inputs) (hc : p.Calibrated inputs)
    (hbyte : byte < config.bytes) {lane : Nat} (hlane : lane / 8 = byte) :
    p.writeSlip lane = .ok (slipAfter (inputs.map fun i => i.writeMoved byte)) :=
  hc.dqWrite.slip_eq_ok h.dqWrite (dqBytes_of_byte hbyte hlane)

/-- What cycle `t` shows on the lanes of a byte, where `before` is the PHY as the cycle
finds it: every half tick since the last reset, late by the slip, and nothing older. -/
structure WriteLanes (config : PhyConfig) (p : Phy) (inputs : List CycleInput) (t byte slip : Nat)
    (before : Phy) (pads : PadOutput) : Prop where
  slip_lt : slip < laneBits
  writeSlip : ∀ lane, lane / 8 = byte → before.writeSlip lane = .ok slip
  cleared : ∀ j, j < laneBits →
    laneBits * t + j <
      laneBits * lastReset ((inputs.take t).map fun i => (i.writeMoved byte).reset) + laneBits + slip →
    ByteBit config byte pads j (fun _ => false) false false
  since : ∀ j pos, j < laneBits → pos + laneBits + slip = laneBits * t + j →
    laneBits * lastReset ((inputs.take t).map fun i => (i.writeMoved byte).reset) ≤ pos →
    ∃ i ph strobe, inputs[pos / laneBits]? = some i ∧ i.phases[pos % laneBits / 2]? = some ph ∧
      p.strobeAt inputs (pos / laneBits) = .ok strobe ∧
      ByteBit config byte pads j
        (fun lane => ph.wrdata.getLsbD (beatBit config.databits lane (pos % laneBits)))
        (ph.wrdataMask.getLsbD (beatBit config.bytes byte (pos % laneBits)))
        (strobe.getLsbD (pos % laneBits))

/-- Under any calibration the lanes of a byte show the same half ticks of what they were
given. -/
theorem write_lanes_aligned (inputs : List CycleInput) (h : Phy.build config table = .ok p) :
    ((∀ i ∈ inputs, i.WellFormed config.databits) → phasesPerCycle * inputs.length < Count.limit →
      ∃ q, p.after inputs = .ok q) ∧
    ∀ q, p.after inputs = .ok q → ∀ t, t < inputs.length →
      ∃ before c, p.after (inputs.take t) = .ok before ∧ p.cycleAt inputs t = .ok c ∧
        ∀ byte, byte < config.bytes → ∃ slip, WriteLanes config p inputs t byte slip before c.pads := by
  obtain ⟨-, hs, hf, hsuppressed⟩ := Phy.build_follows h
  refine ⟨fun hwf hlen => ?_, fun q hq t ht => ?_⟩
  · obtain ⟨q, hq, -⟩ := Phy.after_ok hs hf hsuppressed hwf hlen
    exact ⟨q, hq⟩
  obtain ⟨before, c, hbefore, hcycle, hc⟩ := Phy.after_take hq ht
  obtain ⟨-, hfollows, hcalibrated⟩ := Phy.build_after h hbefore
  obtain ⟨-, -, rfl⟩ := (hfollows.cycleOn_eq_ok hs).mp hcycle
  have hwf := (Phy.after_follows hs hf hq).2
  have hlen : (inputs.take t).length = t := by
    rw [List.length_take]
    omega
  refine ⟨before, _, hbefore, hc, fun byte hbyte => ⟨_, slipAfter_lt _,
    fun lane hlane => hfollows.writeSlip_ok hcalibrated hbyte hlane, fun j hj hpos => ?_,
    fun j pos hj hpos hlive => ?_⟩⟩
  · exact hfollows.byteBit_cleared hcalibrated hbyte hj (by rwa [hlen])
  · obtain ⟨i, ph, hi, hph, hbit⟩ := hfollows.byteBit_since hcalibrated hbyte
      (fun i hm => hwf i (List.mem_of_mem_take hm)) hj (by rwa [hlen]) hlive
    have hu : pos / laneBits < t := by
      have := (List.getElem?_eq_some_iff.mp hi).1
      rwa [hlen] at this
    rw [List.getElem?_take_of_lt hu] at hi
    rw [List.take_take, Nat.min_eq_left (Nat.le_of_lt hu)] at hbit
    obtain ⟨earlierPhy, _, hearlier, -, -⟩ := Phy.after_take hq (Nat.lt_trans hu ht)
    refine ⟨i, ph, _, hi, hph, ?_, hbit⟩
    rw [Phy.strobeAt, hearlier, ok_bind, entry_eq_ok.mpr hi, ok_bind]
    exact (Phy.build_after h hearlier).2.1.chosenStrobe_ok hs i

/-- The write slip of byte 0 is advanced once, then a word comes for lane 3, masked in
its first beat. -/
def slippedRun : List CycleInput :=
  let idle := List.replicate 8 Phase.idle
  [⟨{ CalibrationRegisters.make 0 0 with bytes := 1, write := ⟨false, true⟩ }, idle, PadInput.blank 16⟩,
    ⟨CalibrationRegisters.make 0 0,
      { Phase.idle with wrdata := 0x0008, wrdataMask := 1 } :: List.replicate 7 Phase.idle,
      PadInput.blank 16⟩,
    ⟨CalibrationRegisters.make 0 0, idle, PadInput.blank 16⟩]

theorem slipped_byte_keeps_together :
    ∃ p, Phy.build (PhyConfig.ofClock 100000000) CasTable.mt53e256m16d1 = .ok p ∧
      ∃ c, p.cycleAt slippedRun 2 = .ok c ∧ c.pads.bit (.dq 3) 1 = .ok true ∧
        c.pads.bit (.dmi 0) 1 = .ok true := by
  obtain ⟨p, hp, slipped, hslipped, hslip⟩ : ∃ p,
      Phy.build (PhyConfig.ofClock 100000000) CasTable.mt53e256m16d1 = .ok p ∧
        ∃ before, p.after (slippedRun.take 2) = .ok before ∧ before.writeSlip 3 = .ok 1 := by
    decide +kernel
  obtain ⟨hruns, hshows⟩ := write_lanes_aligned slippedRun hp
  obtain ⟨q, hq⟩ := hruns (by decide) (by decide)
  obtain ⟨before, c, hbefore, hc, hbytes⟩ := hshows q hq 2 (by decide)
  obtain ⟨slip, hlanes⟩ := hbytes 0 (by decide)
  have hsame : before = slipped := Except.ok.inj (hbefore.symm.trans hslipped)
  have hone : slip = 1 := by
    have := hlanes.writeSlip 3 (by decide)
    rw [hsame, hslip] at this
    exact (Except.ok.inj this).symm
  subst hone
  obtain ⟨i, ph, strobe, hi, hph, -, hbit⟩ := hlanes.since 1 16 (by decide) (by decide) (by decide)
  obtain rfl : slippedRun[1] = i := Option.some.inj hi
  obtain rfl : { Phase.idle with wrdata := 0x0008, wrdataMask := 1 } = ph := Option.some.inj hph
  exact ⟨p, hp, c, hc, hbit.dq 3 (by decide), hbit.dmi (by decide)⟩

end DramPhy
