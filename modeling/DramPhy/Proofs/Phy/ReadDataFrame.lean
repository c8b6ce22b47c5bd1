import DramPhy.Proofs.Controller.LaneTransfer
import DramPhy.Proofs.Phy.ReadTiming

/-! What a step writes to the phases of the controller, and what it reads of them. Every low bit
of the read data belongs to one lane and one beat, so a step replaces them all by bits that its
registers hold. It never looks at the read data that the phases come with. -/

namespace DramPhy

/-- A state that some run leads to, whatever software has left in the registers. -/
def Phy.Reaches (p q : Phy) : Prop :=
  ∃ inputs before registers, p.after inputs = .ok before ∧ q = { before with registers }

/-- A phase without what a step returns in it. -/
def Phase.asked (ph : Phase) : Phase := { ph with rddata := 0, rddataValid := false }

/-- A cycle without what it returns. -/
def PhyCycle.outward (c : PhyCycle) : Phy × PadOutput := (c.phy, c.pads)

/-- The read data that a PHY has for phase `k`: a window of every lane, two bits of each. -/
def Phy.readData (p : Phy) (k : Nat) : Word :=
  Word.ofBits (2 * p.config.databits) fun i =>
    p.dqRead.windows[i % p.config.databits]?.any fun window =>
      window.getLsbD (2 * k + i / p.config.databits)

/-- Whether the phases of a cycle have read data. -/
def Phy.readValid (p : Phy) : Bool :=
  p.readEnables.held (p.readEnables.length - 1) || p.registers.leveling

/-- A phase with `data` in the low `n` bits of its read data and its flag set to `valid`. -/
structure Phase.Returns (n : Nat) (data : Word) (valid : Bool) (before after : Phase) : Prop where
  fields : after = { before with rddata := after.rddata, rddataValid := valid }
  low : after.rddata.cut n = data
  above : ∀ i, n ≤ i → after.rddata.getLsbD i = before.rddata.getLsbD i

variable {p q : Phy} {config : PhyConfig} {table : CasTable} {settings : Settings}
  {inputs : List CycleInput} {i : CycleInput} {phases : List Phase} {words : List Word}
  {before after : Phase} {width lane k : Nat}

theorem Phy.Reaches.follows (h : p.Reaches q) (hs : Phy.Sound config settings)
    (hp : p.Follows config settings []) : ∃ inputs, q.Follows config settings inputs := by
  obtain ⟨inputs, before, registers, hrun, rfl⟩ := h
  obtain ⟨hf, -⟩ := Phy.after_follows hs hp hrun
  exact ⟨inputs, hf.of_registers registers⟩

theorem Phy.Reaches.step_ok (h : p.Reaches q) (hs : Phy.Sound config settings)
    (hp : p.Follows config settings []) (hsuppressed : p.arbiter.suppressed = 0)
    (hlen : phasesPerCycle * (q.cycle + 1) < Count.limit) {pads : PadInput}
    (hphases : phases.length = phasesPerCycle) (hpads : pads.dq.length = config.databits) :
    ∃ c, q.step phases pads = .ok c := by
  obtain ⟨inputs, before, registers, hrun, rfl⟩ := h
  obtain ⟨hf, -⟩ := Phy.after_follows hs hp hrun
  have hcount : before.cycle = inputs.length := hf.cycle_eq
  have hwf : ∀ i ∈ [CycleInput.mk registers phases pads], i.WellFormed config.databits := by
    intro i hi
    rw [List.mem_singleton.mp hi]
    exact ⟨hphases, hpads⟩
  obtain ⟨next, hnext⟩ := Phy.after_extend hs hp hsuppressed hrun hwf (by rwa [← hcount])
  simp only [Phy.after_append, bind_eq_ok] at hnext
  obtain ⟨r, hr, c, hc, -⟩ := hnext
  obtain rfl : r = before := Except.ok.inj (hr.symm.trans hrun)
  exact ⟨c, hc⟩

section

variable {flag : Phase → Bool} {field : Phase → Word}

theorem flagWord_asked (h : ∀ ph, flag ph.asked = flag ph) :
    flagWord (phases.map Phase.asked) flag = flagWord phases flag := by
  simp [flagWord, Option.any_map, h]

theorem laneWord_asked (h : ∀ ph, field ph.asked = field ph) :
    laneWord (phases.map Phase.asked) field width lane = laneWord phases field width lane := by
  simp [laneWord, Option.any_map, h]

theorem gatherLane_asked (h : ∀ ph, field ph.asked = field ph) :
    gatherLane (phases.map Phase.asked) field width lane = gatherLane phases field width lane := by
  have hfits : LaneFits (phases.map Phase.asked) width lane ↔ LaneFits phases width lane := by
    simp [LaneFits]
  rw [gatherLane, gatherLane, laneWord_asked h]
  exact if_congr hfits rfl rfl

end

/-- A step clocks in nothing of the read data, and of the pads only the data lanes. -/
theorem Phy.clockIn_asked (p : Phy) (calibration : CalibrationSample) (phases : List Phase)
    (pads : PadInput) :
    p.clockIn calibration (phases.map Phase.asked) { pads with dmi := [], dqs := [] } =
      p.clockIn calibration phases pads := by
  have hwrite : gatherLane (phases.map Phase.asked) Phase.wrdata p.config.databits =
      gatherLane phases Phase.wrdata p.config.databits :=
    funext fun _ => gatherLane_asked fun _ => rfl
  have hmask : gatherLane (phases.map Phase.asked) Phase.mask p.config.bytes =
      gatherLane phases Phase.mask p.config.bytes :=
    funext fun _ => gatherLane_asked fun _ => rfl
  have hcke : flagWord (phases.map Phase.asked) (·.cke) = flagWord phases (·.cke) :=
    flagWord_asked fun _ => rfl
  have hodt : flagWord (phases.map Phase.asked) (·.odt) = flagWord phases (·.odt) :=
    flagWord_asked fun _ => rfl
  have hresetN : flagWord (phases.map Phase.asked) (·.resetN) = flagWord phases (·.resetN) :=
    flagWord_asked fun _ => rfl
  simp only [Phy.clockIn, hwrite, hmask, hcke, hodt, hresetN, List.any_map, List.map_map,
    Function.comp_def, Phase.asked]

theorem scatterWords_keeps (hfit : 2 * width ≤ 64) (hlen : words.length ≤ width)
    (hbefore : phases[k]? = some before)
    (hafter : (scatterWords width words phases)[k]? = some after) :
    before.KeepsAbove (2 * width) after := by
  induction words using List.reverseRecOn generalizing after with
  | nil =>
    obtain rfl := Option.some.inj (hbefore.symm.trans hafter)
    exact ⟨rfl, fun _ _ => rfl⟩
  | append_singleton words word ih =>
    rw [List.length_append, List.length_singleton] at hlen
    rw [scatterWords_append, List.getElem?_mapIdx, Option.map_eq_some_iff] at hafter
    obtain ⟨mid, hmid, rfl⟩ := hafter
    exact (ih (by omega) hmid).trans (mid.receive_keeps k word hfit (by omega))

theorem Phy.readData_beat (p : Phy) {window : Word} (k beat : Nat) (hlane : lane < p.config.databits)
    (hdatabits : p.config.databits ≤ maxDatabits) (hwindow : p.dqRead.windows[lane]? = some window) :
    (p.readData k).getLsbD (beatBit p.config.databits lane beat) =
      window.getLsbD (2 * k + beat % 2) := by
  have hpos : 0 < p.config.databits := by omega
  have hbit := beatBit_lt hlane beat
  have hmod : beatBit p.config.databits lane beat % p.config.databits = lane := by
    rw [beatBit, Nat.mul_add_mod_self_right, Nat.mod_eq_of_lt hlane]
  have hdiv : beatBit p.config.databits lane beat / p.config.databits = beat % 2 := by
    rw [beatBit, Nat.mul_comm, Nat.mul_add_div hpos, Nat.div_eq_of_lt hlane, Nat.add_zero]
  simp only [maxDatabits] at hdatabits
  rw [Phy.readData, Word.getLsbD_ofBits, decide_eq_true hbit, decide_eq_true (by omega), hmod, hdiv,
    hwindow]
  rfl

section

variable (h : q.Follows config settings inputs) (hs : Phy.Sound config settings)

include h hs

theorem Phy.Follows.returned_keeps (hbefore : i.phases[k]? = some before)
    (hafter : (q.returned i)[k]? = some after) :
    Phase.KeepsAbove (2 * config.databits)
      { before with rddataValid := q.readEnables.held (q.readEnables.length - 1) || i.leveling } after := by
  have hdatabits := hs.databits_le
  have hlen : q.dqRead.windows.length = config.databits := by
    simp [h.dqRead.windows_length, dqBytes]
  simp only [maxDatabits] at hdatabits
  rw [Phy.returned_eq_scatterWords, h.config_eq] at hafter
  refine scatterWords_keeps (by omega) (Nat.le_of_eq hlen) ?_ hafter
  rw [List.getElem?_map, hbefore, Option.map_some]

/-- Every low bit of the read data has a lane and a beat that it comes from. -/
theorem Phy.Follows.returned_low (hl : i.phases.length = phasesPerCycle)
    (hafter : (q.returned i)[k]? = some after) :
    after.rddata.cut (2 * config.databits) = q.readData k := by
  apply BitVec.eq_of_getLsbD_eq
  intro b _
  rw [Word.getLsbD_cut]
  by_cases hb : b < 2 * config.databits
  · obtain ⟨lane, beat, hlane, rfl⟩ := exists_beatBit hb
    obtain ⟨own, hown⟩ : ∃ own, q.dqRead.lanes[lane]? = some own :=
      ⟨_, List.getElem?_eq_getElem (by simpa [h.dqRead.length_eq, dqBytes] using hlane)⟩
    have hwindow : q.dqRead.windows[lane]? = some own.slip.window := by
      rw [LaneBank.windows, List.getElem?_map, hown, Option.map_some]
    have hdata := q.readData_beat k beat (by rwa [h.config_eq])
      (by rw [h.config_eq]; exact hs.databits_le) hwindow
    rw [h.config_eq] at hdata
    rw [hdata, ← h.returned_laneWord hs hl hown,
      laneWord_beat (by rw [Phy.returned_length, hl]; decide) _ _ _ _ hafter, decide_eq_true hb,
      Bool.and_true]
  · rw [decide_eq_false hb, Bool.and_false, Phy.readData, Word.getLsbD_ofBits, h.config_eq,
      decide_eq_false hb, Bool.false_and, Bool.false_and]

theorem Phy.Follows.returned_returns (hl : i.phases.length = phasesPerCycle)
    (hr : q.registers = i.registers) (hbefore : i.phases[k]? = some before)
    (hafter : (q.returned i)[k]? = some after) :
    Phase.Returns (2 * config.databits) (q.readData k) q.readValid before after := by
  have hkeeps := h.returned_keeps hs hbefore hafter
  rw [show i.leveling = q.registers.leveling by rw [hr, CycleInput.leveling]] at hkeeps
  exact ⟨hkeeps.fields, h.returned_low hs hl hafter, hkeeps.above⟩

theorem Phy.Follows.step_outward (phases : List Phase) (pads : PadInput) :
    (q.step phases pads).map PhyCycle.outward = (do
      require (phases.length = phasesPerCycle) .recordPerPhase
      require (pads.dq.length = q.config.databits) .wordPerPad
      let phy ← q.clockIn q.registers.sample phases pads
      return (phy, q.pads)) := by
  rw [Phy.step]
  by_cases hl : phases.length = phasesPerCycle
  · have hreturned : q.returnData q.registers.sample.leveling phases =
        .ok (q.returned ⟨q.registers, phases, pads⟩) :=
      h.returnData_ok (i := ⟨q.registers, phases, pads⟩) hs hl
    rw [require, if_pos hl, ok_bind, ok_bind]
    cases require (pads.dq.length = q.config.databits) .wordPerPad with
    | error e => rfl
    | ok _ =>
      rw [ok_bind, ok_bind, h.drive_ok, ok_bind, hreturned, ok_bind]
      cases q.clockIn q.registers.sample phases pads <;> rfl
  · rw [require, if_neg hl]
    rfl

/-- The read data that a step finds in the phases reach neither the pads nor a register. -/
theorem Phy.Follows.step_asked (phases : List Phase) (pads : PadInput) :
    (q.step (phases.map Phase.asked) { pads with dmi := [], dqs := [] }).map PhyCycle.outward =
      (q.step phases pads).map PhyCycle.outward := by
  have hlen : (phases.map Phase.asked).length = phasesPerCycle ↔ phases.length = phasesPerCycle := by
    rw [List.length_map]
  rw [h.step_outward hs, h.step_outward hs, q.clockIn_asked, require_congr hlen]

end

/-- Whatever read data the phases come with, a step replaces the low bits by those that its
registers hold, marks all phases alike and changes nothing else of them. What it drives and
what its registers hold afterwards is the same for all read data, and for all that is on the
pads besides the data lanes. -/
theorem step_overwrites_read_data (h : Phy.build config table = .ok p) (hq : p.Reaches q) :
    (phasesPerCycle * (q.cycle + 1) < Count.limit → ∀ phases pads,
      phases.length = phasesPerCycle → pads.dq.length = config.databits →
      ∃ c, q.step phases pads = .ok c) ∧
    (∀ phases pads c, q.step phases pads = .ok c → c.phases.length = phases.length ∧
      ∀ (k : Nat) (before after : Phase), phases[k]? = some before → c.phases[k]? = some after →
        Phase.Returns (2 * config.databits) (q.readData k) q.readValid before after) ∧
    ∀ phases phases' pads pads', phases.map Phase.asked = phases'.map Phase.asked →
      pads.dq = pads'.dq →
      (q.step phases pads).map PhyCycle.outward = (q.step phases' pads').map PhyCycle.outward := by
  obtain ⟨-, hs, hf, hsuppressed⟩ := Phy.build_follows h
  obtain ⟨inputs, hfollows⟩ := hq.follows hs hf
  refine ⟨fun hlen phases pads hphases hpads => hq.step_ok hs hf hsuppressed hlen hphases hpads,
    fun phases pads c hc => ?_, fun phases phases' pads pads' hasked hdq => ?_⟩
  · obtain ⟨hwf, -, rfl⟩ := (hfollows.step_eq_ok (i := ⟨q.registers, phases, pads⟩) hs rfl).mp hc
    exact ⟨Phy.returned_length q _, fun k before after hbefore hafter =>
      hfollows.returned_returns hs hwf.1 rfl hbefore hafter⟩
  · rw [← hfollows.step_asked hs phases, ← hfollows.step_asked hs phases', hasked, hdq]

/-- A phase that still holds the read data of an earlier cycle. -/
def usedPhase : Phase := { Phase.idle with rddata := 0xfedcba9876543210, rddataValid := true }

theorem used_phases_overwritten :
    ∃ p, Phy.build (PhyConfig.ofClock 100000000) CasTable.mt53e256m16d1 = .ok p ∧
      ∃ q, p.after (readRun.take 5) = .ok q ∧
        ∃ used clean, q.step (List.replicate 8 usedPhase) (PadInput.blank 16) = .ok used ∧
          q.step (List.replicate 8 Phase.idle) (PadInput.blank 16) = .ok clean ∧
          used.outward = clean.outward ∧
          ∃ ph, used.phases[2]? = some ph ∧ Phase.Returns 32 0xffff0000 true usedPhase ph := by
  obtain ⟨p, hp, q, hrun, hcycle, hdata, hvalid⟩ : ∃ p,
      Phy.build (PhyConfig.ofClock 100000000) CasTable.mt53e256m16d1 = .ok p ∧
        ∃ q, p.after (readRun.take 5) = .ok q ∧ phasesPerCycle * (q.cycle + 1) < Count.limit ∧
          q.readData 2 = 0xffff0000 ∧ q.readValid = true := by
    decide +kernel
  obtain ⟨hsteps, hreturns, houtward⟩ := step_overwrites_read_data hp ⟨_, q, q.registers, hrun, rfl⟩
  obtain ⟨used, hused⟩ := hsteps hcycle (List.replicate 8 usedPhase) (PadInput.blank 16) rfl rfl
  obtain ⟨clean, hclean⟩ := hsteps hcycle (List.replicate 8 Phase.idle) (PadInput.blank 16) rfl rfl
  obtain ⟨hlen, hphases⟩ := hreturns _ _ used hused
  obtain ⟨ph, hph⟩ : ∃ ph, used.phases[2]? = some ph :=
    ⟨_, List.getElem?_eq_getElem (by rw [hlen]; decide)⟩
  have hphase := hphases 2 usedPhase ph rfl hph
  rw [hdata, hvalid] at hphase
  have hsame := houtward (List.replicate 8 usedPhase) (List.replicate 8 Phase.idle)
    (PadInput.blank 16) (PadInput.blank 16) rfl rfl
  rw [hused, hclean] at hsame
  exact ⟨p, hp, q, hrun, used, clean, hused, hclean, Except.ok.inj hsame, ph, hph, hphase⟩

end DramPhy
