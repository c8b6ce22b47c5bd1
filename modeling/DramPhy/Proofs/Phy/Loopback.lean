import DramPhy.Proofs.Phy.ReadLanes

/-! A PHY whose DQ pads are shorted to themselves, the output enables left out. Write
slip, pads and read slip make one delay; once the slips of a byte rest, its read data
are its write data, late by three cycles and both slips. -/

namespace DramPhy

/-- Every cycle samples what the cycle before drove. -/
def Phy.LoopedBack (p : Phy) (inputs : List CycleInput) : Prop :=
  ∀ t i c, inputs[t + 1]? = some i → p.cycleAt inputs t = .ok c → i.pads.dq = c.pads.dq

/-- No calibration moves the lanes of a byte. -/
def CycleInput.Still (i : CycleInput) (byte : Nat) : Prop :=
  i.writeMoved byte = ⟨false, false⟩ ∧ i.readMoved byte = ⟨false, false⟩

def sentWords (databits lane : Nat) (inputs : List CycleInput) : List Word :=
  inputs.map fun i => laneWord i.phases Phase.wrdata databits lane

variable {p q : Phy} {config : PhyConfig} {table : CasTable} {settings : Settings}
  {inputs more : List CycleInput} {i : CycleInput} {byte lane j t u pos : Nat}

theorem slipAfter_append_still (moves : List SlipMove) {rest : List SlipMove}
    (h : ∀ m ∈ rest, m = ⟨false, false⟩) : slipAfter (moves ++ rest) = slipAfter moves := by
  induction rest using List.reverseRecOn with
  | nil => rw [List.append_nil]
  | append_singleton rest m ih =>
    have hlast : m = ⟨false, false⟩ := h m (by simp)
    rw [← List.append_assoc, slipAfter_append, hlast]
    exact ih fun m hm => h m (List.mem_append_left _ hm)

section

variable {f : CycleInput → SlipMove} {n : Nat} (hstill : ∀ i ∈ more, f i = ⟨false, false⟩)
  (hn : inputs.length ≤ n)

include hstill hn

theorem slipAfter_still :
    slipAfter (((inputs ++ more).take n).map f) = slipAfter (inputs.map f) := by
  rw [List.take_append, List.take_of_length_le hn, List.map_append]
  refine slipAfter_append_still _ fun m hm => ?_
  obtain ⟨i, hi, rfl⟩ := List.mem_map.mp hm
  exact hstill i (List.mem_of_mem_take hi)

theorem lastReset_still :
    lastReset (((inputs ++ more).take n).map fun i => (f i).reset) ≤ inputs.length := by
  by_contra hlt
  obtain ⟨r, hr, hsome⟩ := lt_lastReset_iff.mp (Nat.lt_of_not_le hlt)
  rw [List.take_append, List.take_of_length_le hn, List.getElem?_map,
    List.getElem?_append_right (Nat.le_of_lt hr)] at hsome
  obtain ⟨i, hi, hreset⟩ := Option.map_eq_some_iff.mp hsome
  rw [hstill i (List.mem_of_mem_take (List.mem_of_getElem? hi))] at hreset
  contradiction

end

section

variable (h : p.Follows config settings inputs) (hc : p.Calibrated inputs)
  (hbyte : byte < config.bytes) (hlane : lane / 8 = byte) (hj : j < laneBits)

include h hc hbyte hlane

include hj

theorem Phy.Follows.dq_since (pos : Nat) {word : Word} (hword : p.pads.dq[lane]? = some word)
    (hpos : pos + laneBits + slipAfter (inputs.map fun i => i.writeMoved byte) =
      laneBits * inputs.length + j)
    (hlive : laneBits * lastReset (inputs.map fun i => (i.writeMoved byte).reset) ≤ pos) :
    word.getLsbD j = streamBit laneBits (sentWords config.databits lane inputs) pos := by
  have hbit := (h.dq_sends hc hbyte hlane).bit_since (written_resets _ hlane _) hj pos
    (by rwa [List.length_map]) hlive
  have hshown : p.pads.lane (.dq lane) = .ok word := entry_eq_ok.mpr hword
  rw [PadOutput.bit_ok hshown hj, Except.ok.injEq] at hbit
  rw [hbit, streamBit, sentWords, List.getElem?_map, List.getElem?_map]
  cases inputs[pos / laneBits]? <;> rfl

end

theorem streamBit_sentWords_take {n : Nat} (hpos : pos < laneBits * n) (hn : n ≤ inputs.length) :
    streamBit laneBits (sentWords config.databits lane (inputs.take n)) pos =
      streamBit laneBits (sentWords config.databits lane inputs) pos := by
  conv_rhs => rw [← List.take_append_drop n inputs, sentWords, List.map_append]
  rw [streamBit_append_left]
  · rfl
  · rw [List.length_map, List.length_take, Nat.min_eq_left hn, Nat.mul_comm]
    exact hpos

theorem Phy.build_cycle (h : Phy.build config table = .ok p) (hq : p.after inputs = .ok q)
    (hi : inputs[t]? = some i) :
    ∃ before c, p.cycleAt inputs t = .ok c ∧ c.phases = Phy.returned before i ∧
      c.pads = before.pads ∧ before.Follows config p.settings (inputs.take t) ∧
      before.Calibrated (inputs.take t) := by
  obtain ⟨hlt, rfl⟩ := List.getElem?_eq_some_iff.mp hi
  obtain ⟨before, c, hbefore, hcycle, hc⟩ := Phy.after_take hq hlt
  obtain ⟨hs, hfollows, hcalibrated⟩ := Phy.build_after h hbefore
  obtain ⟨-, -, rfl⟩ := (hfollows.cycleOn_eq_ok hs).mp hcycle
  exact ⟨before, _, hc, rfl, rfl, hfollows, hcalibrated⟩

/-- Five cycles after the last move of a byte its read data are its write data, late by
three cycles and the two slips. -/
theorem Phy.loopback_bit (h : Phy.build config table = .ok p) (hloop : p.LoopedBack (inputs ++ more))
    (hq : p.after (inputs ++ more) = .ok q) (hstill : ∀ i ∈ more, i.Still byte)
    (hbyte : byte < config.bytes) (hlane : lane / 8 = byte) (hj : j < laneBits)
    (ht : inputs.length + 5 ≤ t) (hlt : t < (inputs ++ more).length) {c : PhyCycle}
    (hcycle : p.cycleAt (inputs ++ more) t = .ok c) :
    ∃ pos, pos + 3 * laneBits + (slipAfter (inputs.map fun i => i.writeMoved byte) +
        slipAfter (inputs.map fun i => i.readMoved byte)) = laneBits * t + j ∧
      (laneWord c.phases Phase.rddata config.databits lane).getLsbD j =
        streamBit laneBits (sentWords config.databits lane (inputs ++ more)) pos := by
  obtain ⟨-, hs, hf, -⟩ := Phy.build_follows h
  have hwf := (Phy.after_follows hs hf hq).2
  have hread : slipAfter (inputs.map fun i => i.readMoved byte) < 16 := slipAfter_lt _
  have hwrite : slipAfter (inputs.map fun i => i.writeMoved byte) < 16 := slipAfter_lt _
  have hj16 : j < 16 := hj
  have hlen : ∀ n, n ≤ t → ((inputs ++ more).take n).length = n := by
    intro n hn
    rw [List.length_take]
    omega
  -- the half tick of the read stream, in the pads of cycle `u + 1`
  obtain ⟨before, _, hc, hphases, -, hfollows, hcalibrated⟩ :=
    Phy.build_cycle h hq (List.getElem?_eq_getElem hlt)
  obtain rfl := Except.ok.inj (hc.symm.trans hcycle)
  have hreadSlip := slipAfter_still (fun i hi => (hstill i hi).2) (show inputs.length ≤ t by omega)
  have hreadReset := lastReset_still (fun i hi => (hstill i hi).2) (show inputs.length ≤ t by omega)
  obtain ⟨readPos, hreadPos⟩ : ∃ readPos, readPos + 16 +
      slipAfter (inputs.map fun i => i.readMoved byte) = 16 * t + j :=
    ⟨16 * t + j - 16 - slipAfter (inputs.map fun i => i.readMoved byte), by omega⟩
  obtain ⟨x, word, hx, hword, hbit⟩ := hfollows.read_since hcalibrated hbyte hlane hj readPos hs
    (fun i hi => hwf i (List.mem_of_mem_take hi)) (hwf _ (List.getElem_mem hlt)).1
    (by rwa [hlen t (Nat.le_refl t), hreadSlip]) (show 16 * _ ≤ readPos by omega)
  obtain ⟨u, hu⟩ : ∃ u, readPos / 16 = u + 1 := ⟨readPos / 16 - 1, by omega⟩
  -- the pads of cycle `u + 1` are what cycle `u` drove
  change ((inputs ++ more).take t)[readPos / 16]? = some x at hx
  rw [hu, List.getElem?_take_of_lt (by omega)] at hx
  obtain ⟨driver, d, hd, -, hpads, hdriver, hdriven⟩ :=
    Phy.build_cycle h hq (List.getElem?_eq_getElem (show u < (inputs ++ more).length by omega))
  rw [hloop u x d hx hd, hpads] at hword
  have hwriteSlip := slipAfter_still (fun i hi => (hstill i hi).1) (show inputs.length ≤ u by omega)
  have hwriteReset := lastReset_still (fun i hi => (hstill i hi).1) (show inputs.length ≤ u by omega)
  obtain ⟨pos, hpos⟩ : ∃ pos, pos + 16 +
      slipAfter (inputs.map fun i => i.writeMoved byte) = 16 * u + readPos % 16 :=
    ⟨16 * u + readPos % 16 - 16 - slipAfter (inputs.map fun i => i.writeMoved byte), by omega⟩
  have hsent := hdriver.dq_since hdriven hbyte hlane (Nat.mod_lt readPos (by decide)) pos hword
    (by rwa [hlen u (by omega), hwriteSlip]) (show 16 * _ ≤ pos by omega)
  refine ⟨pos, show pos + 3 * 16 + _ = 16 * t + j by omega, ?_⟩
  rw [hphases, hbit, hsent]
  exact streamBit_sentWords_take (show pos < 16 * u by omega) (by omega)

theorem Phy.exists_looped_pads (h : Phy.build config table = .ok p) (hq : p.after inputs = .ok q) :
    ∃ pads : PadInput, pads.dq.length = config.databits ∧
      ∀ t c, t + 1 = inputs.length → p.cycleAt inputs t = .ok c → pads.dq = c.pads.dq := by
  rcases Nat.eq_zero_or_pos inputs.length with hzero | hpos
  · exact ⟨PadInput.blank config.databits, by simp [PadInput.blank], fun t _ ht => by omega⟩
  · obtain ⟨before, c, hc, -, hpads, hfollows, -⟩ := Phy.build_cycle h hq
      (List.getElem?_eq_getElem (show inputs.length - 1 < inputs.length by omega))
    refine ⟨{ PadInput.blank config.databits with dq := c.pads.dq }, ?_, fun t c' ht hc' => ?_⟩
    · change c.pads.dq.length = config.databits
      rw [hpads, hfollows.pads_dq_length]
    · rw [show t = inputs.length - 1 by omega] at hc'
      rw [Except.ok.inj (hc.symm.trans hc')]

theorem Phy.LoopedBack.append (h : p.LoopedBack inputs)
    (hlast : ∀ t c, t + 1 = inputs.length → p.cycleAt inputs t = .ok c → i.pads.dq = c.pads.dq) :
    p.LoopedBack (inputs ++ [i]) := by
  intro t x c hx hc
  have hlt : t + 1 < inputs.length + 1 := by
    simpa using (List.getElem?_eq_some_iff.mp hx).1
  rw [Phy.cycleAt_append p [i] (by omega)] at hc
  rcases Nat.lt_or_ge (t + 1) inputs.length with hbefore | hge
  · rw [List.getElem?_append_left hbefore] at hx
    exact h t x c hx hc
  · have hend : t + 1 = inputs.length := by omega
    rw [hend, List.getElem?_concat_length, Option.some.injEq] at hx
    rw [← hx]
    exact hlast t c hend hc

/-- A looped run goes on with any calibration and any phases. -/
theorem Phy.exists_loopback (h : Phy.build config table = .ok p) (hq : p.after inputs = .ok q)
    (hloop : p.LoopedBack inputs) (steps : List (CalibrationRegisters × List Phase))
    (hl : ∀ s ∈ steps, s.2.length = phasesPerCycle)
    (hlen : phasesPerCycle * (inputs.length + steps.length) < Count.limit) :
    ∃ more r, more.map (fun i => (i.registers, i.phases)) = steps ∧
      p.LoopedBack (inputs ++ more) ∧ p.after (inputs ++ more) = .ok r := by
  obtain ⟨-, hs, hf, hsuppressed⟩ := Phy.build_follows h
  induction steps using List.reverseRecOn with
  | nil => exact ⟨[], q, rfl, by rwa [List.append_nil], by rwa [List.append_nil]⟩
  | append_singleton steps s ih =>
    rw [List.length_append, List.length_singleton] at hlen
    simp only [phasesPerCycle] at hlen ih
    obtain ⟨more, r, hmore, hlooped, hr⟩ :=
      ih (fun s' hs' => hl s' (List.mem_append_left _ hs')) (by omega)
    obtain ⟨pads, hwidth, hlast⟩ := Phy.exists_looped_pads h hr
    have hwf : ∀ i ∈ [CycleInput.mk s.1 s.2 pads], i.WellFormed config.databits := by
      intro i hi
      rw [List.mem_singleton.mp hi]
      exact ⟨hl s (by simp), hwidth⟩
    have hcount : more.length = steps.length := by rw [← hmore, List.length_map]
    obtain ⟨r', hr'⟩ := Phy.after_extend hs hf hsuppressed hr hwf (by
      simp only [List.length_append, List.length_singleton, phasesPerCycle]
      omega)
    rw [List.append_assoc] at hr'
    refine ⟨more ++ [⟨s.1, s.2, pads⟩], r', by simp [hmore], ?_, hr'⟩
    rw [← List.append_assoc]
    exact hlooped.append hlast

/-- What cycle `t` of a looped run returns for a byte whose slips come to `delay`. -/
structure LoopbackCycle (config : PhyConfig) (inputs : List CycleInput) (t byte delay : Nat)
    (phases : List Phase) : Prop where
  stream : ∀ lane j pos, lane / 8 = byte → j < laneBits →
    pos + 3 * laneBits + delay = laneBits * t + j →
    (laneWord phases Phase.rddata config.databits lane).getLsbD j =
      streamBit laneBits (sentWords config.databits lane inputs) pos
  whole : ∀ n, delay = laneBits * n → ∃ i, inputs[t - (3 + n)]? = some i ∧
    ∀ lane, lane / 8 = byte → laneWord phases Phase.rddata config.databits lane =
      laneWord i.phases Phase.wrdata config.databits lane

theorem laneWord_ext {phases phases' : List Phase} {field field' : Phase → Word} {width : Nat}
    (hl : phases.length = phasesPerCycle) (hl' : phases'.length = phasesPerCycle)
    (h : ∀ k, k < laneBits → (laneWord phases field width lane).getLsbD k =
      (laneWord phases' field' width lane).getLsbD k) :
    laneWord phases field width lane = laneWord phases' field' width lane := by
  rw [← laneWord_cut hl, ← laneWord_cut hl']
  apply BitVec.eq_of_getLsbD_eq
  intro k _
  rw [Word.getLsbD_cut, Word.getLsbD_cut]
  by_cases hk : k < laneBits
  · rw [h k hk]
  · rw [decide_eq_false hk, Bool.and_false, Bool.and_false]

theorem streamBit_sentWords (databits lane : Nat) (hu : inputs[u]? = some i) (hj : j < laneBits) :
    streamBit laneBits (sentWords databits lane inputs) (laneBits * u + j) =
      (laneWord i.phases Phase.wrdata databits lane).getLsbD j := by
  rw [Nat.mul_comm]
  refine streamBit_getElem? ?_ hj
  rw [sentWords, List.getElem?_map, hu, Option.map_some]

theorem LoopbackCycle.of_stream {delay : Nat} {phases : List Phase}
    (hwf : ∀ i ∈ inputs, i.WellFormed config.databits) (hl : phases.length = phasesPerCycle)
    (ht : 5 ≤ t) (hlt : t < inputs.length) (hdelay : delay < 2 * laneBits)
    (hstream : ∀ lane j pos, lane / 8 = byte → j < laneBits →
      pos + 3 * laneBits + delay = laneBits * t + j →
      (laneWord phases Phase.rddata config.databits lane).getLsbD j =
        streamBit laneBits (sentWords config.databits lane inputs) pos) :
    LoopbackCycle config inputs t byte delay phases := by
  refine ⟨hstream, fun n hn => ?_⟩
  obtain ⟨i, hi⟩ : ∃ i, inputs[t - (3 + n)]? = some i :=
    ⟨_, List.getElem?_eq_getElem (show t - (3 + n) < inputs.length by omega)⟩
  refine ⟨i, hi, fun lane hlane => ?_⟩
  refine laneWord_ext hl (hwf i (List.mem_of_getElem? hi)).1 fun k hk => ?_
  have hpos : laneBits * (t - (3 + n)) + k + 3 * laneBits + delay = laneBits * t + k := by
    simp only [laneBits, phasesPerCycle] at hdelay hn ⊢
    omega
  rw [hstream lane k _ hlane hk hpos, streamBit_sentWords _ _ hi hk]

/-- The first beat of a cycle is high on all lanes, the others are low. -/
def pulsePhases (databits : Nat) : List Phase :=
  { Phase.idle with wrdata := lowMask databits } :: List.replicate 7 Phase.idle

theorem laneWord_pulsePhases {databits : Nat} (hd : databits ≤ maxDatabits)
    (hlane : lane < databits) (hj : j < laneBits) :
    (laneWord (pulsePhases databits) Phase.wrdata databits lane).getLsbD j = decide (j = 0) := by
  have hlow : ∀ k, (lowMask databits).getLsbD (beatBit databits lane k) = decide (k % 2 = 0) := by
    intro k
    have hbeat := beatBit_lt hlane k
    simp only [maxDatabits] at hd
    rw [getLsbD_lowMask, decide_eq_true (show beatBit databits lane k < 64 by omega), Bool.and_true]
    rcases Nat.mod_two_eq_zero_or_one k with hk | hk <;> simp [beatBit, hk, hlane]
  have hroom : (pulsePhases databits).length ≤ 32 := show 8 ≤ 32 by decide
  rcases Nat.lt_or_ge j 2 with hfirst | hlater
  · rw [laneWord_getLsbD hroom Phase.wrdata _ _
      (show (pulsePhases databits)[j / 2]? = some _ by rw [Nat.div_eq_of_lt hfirst]; rfl), hlow]
    simp only [decide_eq_decide]
    omega
  · have hidle : (pulsePhases databits)[j / 2]? = some Phase.idle := by
      simp only [laneBits, phasesPerCycle] at hj
      obtain ⟨k, hk⟩ : ∃ k, j / 2 = k + 1 := ⟨j / 2 - 1, by omega⟩
      rw [hk, pulsePhases, List.getElem?_cons_succ, List.getElem?_replicate_of_lt (by omega)]
    rw [laneWord_getLsbD hroom Phase.wrdata _ _ hidle, decide_eq_false (by omega)]
    exact BitVec.getLsbD_zero

/-- When the slips do not come to whole cycles, a beat sent in every cycle comes back at
another place of the cycle. -/
theorem LoopbackCycle.pulse_ne {delay d : Nat} {phases : List Phase}
    (hc : LoopbackCycle config (inputs ++ more) t byte delay phases)
    (hdelay : delay < 2 * laneBits) (hslipped : ¬ laneBits ∣ delay)
    (hd : config.databits ≤ maxDatabits) (hbyte : byte < config.bytes) (hlane : lane / 8 = byte)
    (hmore : ∀ i ∈ more, i.phases = pulsePhases config.databits) (ht : inputs.length + 5 ≤ t)
    (hlt : t < (inputs ++ more).length) (hfrom : inputs.length + d ≤ t)
    (hi : (inputs ++ more)[t - d]? = some i) :
    laneWord phases Phase.rddata config.databits lane ≠
      laneWord i.phases Phase.wrdata config.databits lane := by
  have hwidth : lane < config.databits := by
    simp only [PhyConfig.bytes, byteLanes] at hbyte
    omega
  have hsent : ∀ u x, inputs.length ≤ u → (inputs ++ more)[u]? = some x → ∀ k, k < laneBits →
      (laneWord x.phases Phase.wrdata config.databits lane).getLsbD k = decide (k = 0) := by
    intro u x hu hx k hk
    rw [List.getElem?_append_right hu] at hx
    rw [hmore x (List.mem_of_getElem? hx), laneWord_pulsePhases hd hwidth hk]
  obtain ⟨n, r, hsum, hr, hne⟩ : ∃ n r, delay = laneBits * n + r ∧ r < laneBits ∧ r ≠ 0 :=
    ⟨delay / laneBits, delay % laneBits, (Nat.div_add_mod delay laneBits).symm,
      Nat.mod_lt _ (by decide), fun hzero => hslipped (Nat.dvd_of_mod_eq_zero hzero)⟩
  simp only [laneBits, phasesPerCycle] at hdelay hsum
  have hsource : t - (3 + n) < (inputs ++ more).length := by omega
  have hpos : laneBits * (t - (3 + n)) + 0 + 3 * laneBits + delay = laneBits * t + r := by
    simp only [laneBits, phasesPerCycle]
    omega
  have hhigh := hc.stream lane _ _ hlane hr hpos
  rw [streamBit_sentWords _ _ (List.getElem?_eq_getElem hsource) (by decide),
    hsent _ _ (by omega) (List.getElem?_eq_getElem hsource) 0 (by decide)] at hhigh
  intro heq
  rw [heq, hsent _ _ (by omega) hi _ hr, decide_eq_false hne] at hhigh
  contradiction

theorem Phy.loopback_slips (h : Phy.build config table = .ok p)
    (hq : p.after (inputs ++ more) = .ok q) (hstill : ∀ i ∈ more, i.Still byte)
    (hbyte : byte < config.bytes) (hlane : lane / 8 = byte) :
    q.writeSlip lane = .ok (slipAfter (inputs.map fun i => i.writeMoved byte)) ∧
      q.readSlip lane = .ok (slipAfter (inputs.map fun i => i.readMoved byte)) := by
  obtain ⟨-, hfollows, hcalibrated⟩ := Phy.build_after h hq
  have hle : inputs.length ≤ (inputs ++ more).length := by
    rw [List.length_append]
    omega
  have hwrite := slipAfter_still (fun i hi => (hstill i hi).1) hle
  have hread := slipAfter_still (fun i hi => (hstill i hi).2) hle
  rw [List.take_length] at hwrite hread
  rw [hfollows.writeSlip_ok hcalibrated hbyte hlane, hwrite,
    hfollows.readSlip_ok hcalibrated hbyte hlane, hread]
  exact ⟨rfl, rfl⟩

theorem Phy.loopback_cycle (h : Phy.build config table = .ok p)
    (hloop : p.LoopedBack (inputs ++ more)) (hq : p.after (inputs ++ more) = .ok q)
    (hstill : ∀ i ∈ more, i.Still byte) (hbyte : byte < config.bytes)
    (ht : inputs.length + 5 ≤ t) (hlt : t < (inputs ++ more).length) :
    ∃ c, p.cycleAt (inputs ++ more) t = .ok c ∧
      LoopbackCycle config (inputs ++ more) t byte
        (slipAfter (inputs.map fun i => i.writeMoved byte) +
          slipAfter (inputs.map fun i => i.readMoved byte)) c.phases := by
  obtain ⟨-, hs, hf, -⟩ := Phy.build_follows h
  have hwf := (Phy.after_follows hs hf hq).2
  have hwrite := slipAfter_lt (inputs.map fun i => i.writeMoved byte)
  have hread := slipAfter_lt (inputs.map fun i => i.readMoved byte)
  obtain ⟨before, c, hc, hphases, -⟩ := Phy.build_cycle h hq (List.getElem?_eq_getElem hlt)
  refine ⟨c, hc, LoopbackCycle.of_stream hwf ?_ (by omega) hlt (by omega) ?_⟩
  · rw [hphases, Phy.returned_length, (hwf _ (List.getElem_mem hlt)).1]
  · intro lane j pos hlane hj hpos
    obtain ⟨pos', hpos', hbit⟩ := Phy.loopback_bit h hloop hq hstill hbyte hlane hj ht hlt hc
    rwa [show pos = pos' by omega]

/-- Whatever the slips of a byte are when its calibration ends, a looped byte loses
nothing from then on, and its data come back in whole words exactly when the slips come
to whole cycles. -/
theorem loopback_lossless (inputs : List CycleInput) (h : Phy.build config table = .ok p)
    (hq : p.after inputs = .ok q) (hloop : p.LoopedBack inputs) (hbyte : byte < config.bytes) :
    (∀ steps : List (CalibrationRegisters × List Phase),
      (∀ s ∈ steps, s.2.length = phasesPerCycle) →
      phasesPerCycle * (inputs.length + steps.length) < Count.limit →
      ∃ more r, more.map (fun i => (i.registers, i.phases)) = steps ∧
        p.LoopedBack (inputs ++ more) ∧ p.after (inputs ++ more) = .ok r) ∧
    ∃ write read, write < laneBits ∧ read < laneBits ∧
      (∀ more r, (∀ i ∈ more, i.Still byte) → p.LoopedBack (inputs ++ more) →
        p.after (inputs ++ more) = .ok r →
        (∀ lane, lane / 8 = byte → r.writeSlip lane = .ok write ∧ r.readSlip lane = .ok read) ∧
        ∀ t, inputs.length + 5 ≤ t → t < (inputs ++ more).length →
          ∃ c, p.cycleAt (inputs ++ more) t = .ok c ∧
            LoopbackCycle config (inputs ++ more) t byte (write + read) c.phases) ∧
      (¬ laneBits ∣ write + read → ∃ phases, phases.length = phasesPerCycle ∧
        ∀ more r, (∀ i ∈ more, i.Still byte ∧ i.phases = phases) →
          p.LoopedBack (inputs ++ more) → p.after (inputs ++ more) = .ok r →
          ∀ t d c i lane, inputs.length + 5 ≤ t → inputs.length + d ≤ t →
            p.cycleAt (inputs ++ more) t = .ok c → (inputs ++ more)[t - d]? = some i →
            lane / 8 = byte → laneWord c.phases Phase.rddata config.databits lane ≠
              laneWord i.phases Phase.wrdata config.databits lane) := by
  obtain ⟨-, hs, -⟩ := Phy.build_follows h
  have hwrite := slipAfter_lt (inputs.map fun i => i.writeMoved byte)
  have hread := slipAfter_lt (inputs.map fun i => i.readMoved byte)
  refine ⟨Phy.exists_loopback h hq hloop, _, _, hwrite, hread, ?_, fun hslipped =>
    ⟨pulsePhases config.databits, rfl, ?_⟩⟩
  · intro more r hstill hlooped hr
    exact ⟨fun lane hlane => Phy.loopback_slips h hr hstill hbyte hlane,
      fun t ht hlt => Phy.loopback_cycle h hlooped hr hstill hbyte ht hlt⟩
  · intro more r hmore hlooped hr t d c i lane ht hfrom hc hi hlane
    have hlt : t < (inputs ++ more).length := by
      simp only [Phy.cycleAt, bind_eq_ok] at hc
      obtain ⟨_, -, x, hx, -⟩ := hc
      exact (List.getElem?_eq_some_iff.mp (entry_eq_ok.mp hx)).1
    obtain ⟨c', hc', hcycle⟩ :=
      Phy.loopback_cycle h hlooped hr (fun i hi => (hmore i hi).1) hbyte ht hlt
    obtain rfl := Except.ok.inj (hc'.symm.trans hc)
    exact hcycle.pulse_ne (by omega) hslipped hs.databits_le hbyte hlane
      (fun i hi => (hmore i hi).2) ht hlt hfrom hi

/-- Write and read slip of byte 0 are advanced once. -/
def slippingRun : List CycleInput :=
  [⟨{ CalibrationRegisters.make 0 0 with bytes := 1, read := ⟨false, true⟩, write := ⟨false, true⟩ },
    List.replicate 8 Phase.idle, PadInput.blank 16⟩]

/-- Eight cycles at rest, a pulse sent in the fourth. -/
def pulseSteps : List (CalibrationRegisters × List Phase) :=
  let idle := (CalibrationRegisters.make 0 0, List.replicate 8 Phase.idle)
  [idle, idle, idle, (CalibrationRegisters.make 0 0, pulsePhases 16), idle, idle, idle, idle]

theorem pulse_comes_back :
    ∃ p, Phy.build (PhyConfig.ofClock 100000000) CasTable.mt53e256m16d1 = .ok p ∧
      ∃ inputs c, p.LoopedBack inputs ∧
        inputs.map (fun i => (i.registers, i.phases)) =
          slippingRun.map (fun i => (i.registers, i.phases)) ++ pulseSteps ∧
        p.cycleAt inputs 7 = .ok c ∧
        (laneWord c.phases Phase.rddata 16 3).getLsbD 2 = true := by
  obtain ⟨p, hp, q, hq, hwrite, hread⟩ : ∃ p,
      Phy.build (PhyConfig.ofClock 100000000) CasTable.mt53e256m16d1 = .ok p ∧
        ∃ q, p.after slippingRun = .ok q ∧ q.writeSlip 3 = .ok 1 ∧ q.readSlip 3 = .ok 1 := by
    decide +kernel
  have hloop : p.LoopedBack slippingRun := by
    intro t i c hi
    have := (List.getElem?_eq_some_iff.mp hi).1
    simp [slippingRun] at this
  obtain ⟨hruns, write, read, -, -, hlate, -⟩ :=
    loopback_lossless slippingRun hp hq hloop (show 0 < 2 by decide)
  obtain ⟨more, r, hmore, hlooped, hr⟩ := hruns pulseSteps (by decide) (by decide)
  obtain ⟨hslips, -⟩ := hlate [] q (by simp) (by rwa [List.append_nil]) (by rwa [List.append_nil])
  obtain rfl : 1 = write := Except.ok.inj (hwrite.symm.trans (hslips 3 rfl).1)
  obtain rfl : 1 = read := Except.ok.inj (hread.symm.trans (hslips 3 rfl).2)
  have hstill : ∀ i ∈ more, i.Still 0 := by
    intro i hi
    have hrest : ∀ s ∈ pulseSteps, s.1 = CalibrationRegisters.make 0 0 := by decide
    have hregisters : i.registers = CalibrationRegisters.make 0 0 :=
      hrest (i.registers, i.phases) (hmore ▸ List.mem_map.mpr ⟨i, hi, rfl⟩)
    rw [CycleInput.Still, CycleInput.writeMoved, CycleInput.readMoved, hregisters]
    exact ⟨rfl, rfl⟩
  have hlen : more.length = 8 := by
    have := congrArg List.length hmore
    rwa [List.length_map] at this
  obtain ⟨-, hcycles⟩ := hlate more r hstill hlooped hr
  obtain ⟨c, hc, hcycle⟩ := hcycles 7 (by decide) (by rw [List.length_append, hlen]; decide)
  refine ⟨p, hp, slippingRun ++ more, c, hlooped, by rw [List.map_append, hmore], hc, ?_⟩
  have hsent : sentWords 16 3 (slippingRun ++ more) = sentWords 16 3 slippingRun ++
      pulseSteps.map fun s => laneWord s.2 Phase.wrdata 16 3 := by
    rw [← hmore, sentWords, List.map_append, List.map_map]
    rfl
  have hbit := hcycle.stream 3 2 64 rfl (by decide) rfl
  change _ = streamBit laneBits (sentWords 16 3 _) 64 at hbit
  rw [hsent] at hbit
  exact hbit.trans (by decide)

end DramPhy
