import DramPhy.Proofs.Controller.LaneScatter
import DramPhy.Proofs.Phy.Cycle

/-! What the registers of a PHY hold after a run, part by part, and how one more
cycle changes it. A cycle with the right number of phases and pads fails only when
the count of cycles or of suppressed commands runs out. -/

namespace DramPhy

/-- The strobe frame of a cycle that comes after the cycles of a run. -/
def frameAfter (tap : Nat) (before : List CycleInput) (i : CycleInput) : StrobeFrame :=
  writeFrame tap (before.map (·.writing) ++ [i.writing]) i.leveling

def writeFrames (tap : Nat) (inputs : List CycleInput) : List StrobeFrame :=
  (List.range inputs.length).map fun t =>
    writeFrame tap ((inputs.take (t + 1)).map (·.writing)) (inputs[t]?.any (·.leveling))

theorem writeFrames_append (tap : Nat) (inputs : List CycleInput) (i : CycleInput) :
    writeFrames tap (inputs ++ [i]) = writeFrames tap inputs ++ [frameAfter tap inputs i] := by
  rw [writeFrames, List.length_append, List.length_singleton, List.range_succ, List.map_append]
  congr 1
  · refine List.map_congr_left fun t ht => ?_
    have hlt := List.mem_range.mp ht
    rw [List.take_append_of_le_length (by omega), List.getElem?_append_left hlt]
  · simp [frameAfter, List.take_of_length_le]

/-- What is settled about a PHY when it is built. -/
structure Phy.Sound (config : PhyConfig) (settings : Settings) : Prop where
  databits_le : config.databits ≤ maxDatabits
  readLatency_pos : 1 ≤ settings.timing.readLatency
  tap_lt : (settings.timing.writeTap : Int) + 1 < Offset.limit

structure Phy.Follows (p : Phy) (config : PhyConfig) (settings : Settings)
    (inputs : List CycleInput) : Prop where
  config_eq : p.config = config
  settings_eq : p.settings = settings
  arbiter : Arbiter.after phasesPerCycle config.overlapMasking (inputs.map (·.commands)) = .ok p.arbiter
  cke : p.cke = DelayLine.fed 1 0 (inputs.map fun i => flagWord i.phases (·.cke))
  odt : p.odt = DelayLine.fed 1 0 (inputs.map fun i => flagWord i.phases (·.odt))
  resetN : p.resetN = DelayLine.fed 1 0 (inputs.map fun i => flagWord i.phases (·.resetN))
  dqWrite : p.dqWrite.Follows (dqBytes config.databits)
    fun k => received (inputs.map (·.written config.databits k))
  dqRead : p.dqRead.Follows (dqBytes config.databits) fun k => received (inputs.map (·.sampled k))
  dqsWrite : p.dqsWrite.Follows (List.range config.bytes) fun k =>
    received ((inputs.zip (writeFrames settings.timing.writeTap inputs)).map
      (CycleInput.strobed config.patterns k))
  dmiWrite : p.dmiWrite.Follows (if config.maskedWrite then List.range config.bytes else [])
    fun k => received (inputs.map (·.masked config.bytes k))
  readEnables : p.readEnables = DelayLine.fed settings.timing.readLatency false (inputs.map (·.reading))
  framing : p.framing = WriteFraming.fed settings.timing.writeTap (inputs.map (·.writing))
  dqOe : p.dqOe = DelayLine.fed 1 false ((writeFrames settings.timing.writeTap inputs).map (·.dqOe))
  dqsOe : p.dqsOe = DelayLine.fed 1 false ((writeFrames settings.timing.writeTap inputs).map (·.dqsOe))
  cycle_eq : p.cycle = inputs.length

/-- The counts of a PHY leave room for one more cycle. -/
def Phy.Room (p : Phy) : Prop :=
  p.arbiter.suppressed + p.arbiter.dropped.ones < Count.limit ∧ p.cycle + 1 < Count.limit

variable {p : Phy} {config : PhyConfig} {settings : Settings} {inputs : List CycleInput}
  {i : CycleInput} {c : PhyCycle}

theorem Phy.Follows.of_registers (h : p.Follows config settings inputs) (r : CalibrationRegisters) :
    Phy.Follows { p with registers := r } config settings inputs :=
  ⟨h.config_eq, h.settings_eq, h.arbiter, h.cke, h.odt, h.resetN, h.dqWrite, h.dqRead, h.dqsWrite,
    h.dmiWrite, h.readEnables, h.framing, h.dqOe, h.dqsOe, h.cycle_eq⟩

theorem Phy.Follows.arbiter_follows (h : p.Follows config settings inputs) :
    p.arbiter.Follows phasesPerCycle config.overlapMasking (inputs.map (·.commands)) :=
  Arbiter.after_follows h.arbiter

theorem mem_dqBytes_lt {databits byte : Nat} (hd : databits ≤ maxDatabits)
    (hb : byte ∈ dqBytes databits) : byte < 64 := by
  obtain ⟨k, hk, rfl⟩ := List.mem_map.mp hb
  have := List.mem_range.mp hk
  simp only [maxDatabits] at hd
  omega

theorem dqBytes_getElem? {databits k byte : Nat} (h : (dqBytes databits)[k]? = some byte) :
    k < databits ∧ byte = k / 8 := by
  simp only [dqBytes, List.getElem?_map, Option.map_eq_some_iff] at h
  obtain ⟨j, hj, rfl⟩ := h
  obtain ⟨hlt, rfl⟩ := List.getElem?_eq_some_iff.mp hj
  simpa using hlt

/-- The slip read off one lane of a byte is that of all its lanes. -/
theorem LaneBank.Follows.dq_slip {bank : LaneBank} {words : Nat → List Word}
    {databits lane other slip : Nat} (h : bank.Follows (dqBytes databits) words)
    (hlane : lane < databits) (hbyte : lane / 8 = other / 8) (hslip : bank.slip other = .ok slip) :
    ∃ own, bank.lanes[lane]? = some own ∧ own.slip.slip = slip := by
  simp only [LaneBank.slip, bind_eq_ok, pure_eq_ok, entry_eq_ok] at hslip
  obtain ⟨found, hfound, rfl⟩ := hslip
  have hfoundByte := (dqBytes_getElem? (h.byte_eq hfound)).2
  obtain ⟨own, hown, hownByte⟩ := h.exists_lane
    (show (dqBytes databits)[lane]? = some found.byte by simp [dqBytes, hlane, hfoundByte, hbyte])
  exact ⟨own, hown,
    h.uniform own (List.mem_of_getElem? hown) found (List.mem_of_getElem? hfound) hownByte⟩

theorem Phy.Follows.drive_ok (h : p.Follows config settings inputs) : p.drive = .ok p.pads := by
  have hline : ∀ {α : Type} (rest : α) (xs : List α),
      (DelayLine.fed 1 rest xs).output = .ok ((DelayLine.fed 1 rest xs).held 0) := by
    intro α rest xs
    rw [DelayLine.fed_output (by decide), DelayLine.fed_held (by decide)]
  have hcke : p.cke.output = .ok (p.cke.held 0) := by rw [h.cke, hline]
  have hodt : p.odt.output = .ok (p.odt.held 0) := by rw [h.odt, hline]
  have hreset : p.resetN.output = .ok (p.resetN.held 0) := by rw [h.resetN, hline]
  have hdqOe : p.dqOe.output = .ok (p.dqOe.held 0) := by rw [h.dqOe, hline]
  have hdqsOe : p.dqsOe.output = .ok (p.dqsOe.held 0) := by rw [h.dqsOe, hline]
  have hbus := Arbiter.output_ok h.arbiter_follows
  simp only [Phy.drive, hcke, hodt, hreset, hbus, h.dqWrite.words_ok, hdqOe, h.dqsWrite.words_ok,
    hdqsOe, ok_bind]
  cases hmask : p.config.maskedWrite
  · simp [Phy.pads, hmask, PadOutput.blank, PhyConfig.bytes, pure, Except.pure, bind, Except.bind]
  · simp [Phy.pads, hmask, h.dmiWrite.words_ok, PadOutput.blank, pure, Except.pure, bind, Except.bind]

theorem Phy.Follows.pads_dq_length (h : p.Follows config settings inputs) :
    p.pads.dq.length = config.databits := by
  change p.dqWrite.windows.length = config.databits
  simp [h.dqWrite.windows_length, dqBytes]

theorem Phy.Follows.pads_dqs_length (h : p.Follows config settings inputs) :
    p.pads.dqs.length = config.bytes := by
  change p.dqsWrite.windows.length = config.bytes
  rw [h.dqsWrite.windows_length, List.length_range]

theorem Phy.Follows.pads_dmi_length (h : p.Follows config settings inputs) :
    p.pads.dmi.length = config.bytes := by
  change (if p.config.maskedWrite then p.dmiWrite.windows
    else List.replicate p.config.bytes 0).length = config.bytes
  rw [h.config_eq]
  split_ifs with hmask
  · rw [h.dmiWrite.windows_length, if_pos hmask, List.length_range]
  · rw [List.length_replicate]

theorem scatterLanes_ok {width : Nat} {phases : List Phase} (words : List (Word × Nat))
    (hn : phases.length ≤ 32) (hfit : 2 * width ≤ 64) (hlane : ∀ w ∈ words, w.2 < width) :
    words.foldlM (fun ps w => scatterLane ps width w.2 w.1) phases =
      .ok (words.foldl (fun ps w => ps.mapIdx fun k ph => ph.receive k width w.2 w.1) phases) := by
  induction words generalizing phases with
  | nil => rfl
  | cons w words ih =>
    have hfirst := hlane w (List.mem_cons_self ..)
    rw [List.foldlM_cons, List.foldl_cons, scatterLane_ok hn hfit hfirst, ok_bind]
    exact ih (by rwa [List.length_mapIdx]) fun w' hm => hlane w' (List.mem_cons_of_mem _ hm)

theorem Phy.Follows.returnData_ok (h : p.Follows config settings inputs) (hs : Phy.Sound config settings)
    (hl : i.phases.length = phasesPerCycle) :
    p.returnData i.leveling i.phases = .ok (p.returned i) := by
  have henabled : p.readEnables.output = .ok (p.readEnables.held (p.readEnables.length - 1)) := by
    have hpos := hs.readLatency_pos
    rw [h.readEnables, DelayLine.fed_output hpos]
    exact congrArg Except.ok (DelayLine.fed_held (by omega)).symm
  have hlane : ∀ w ∈ p.dqRead.windows.zipIdx, w.2 < p.config.databits := by
    intro w hm
    have hlt := (List.getElem?_eq_some_iff.mp (List.mem_zipIdx_iff_getElem?.mp hm)).1
    rw [LaneBank.windows, List.length_map, h.dqRead.length_eq, ← h.config_eq] at hlt
    simpa [dqBytes] using hlt
  rw [Phy.returnData, henabled, ok_bind, h.dqRead.words_ok, ok_bind]
  have hfit : 2 * p.config.databits ≤ 64 := by
    have := hs.databits_le
    simp only [h.config_eq, maxDatabits] at this ⊢
    omega
  exact scatterLanes_ok _ (by simp [hl, phasesPerCycle]) hfit hlane

theorem gatherLanes_ok {phases : List Phase} (width : Nat) (field : Phase → Word)
    (hl : phases.length = phasesPerCycle) (hw : width ≤ maxDatabits) :
    (List.range width).mapM (gatherLane phases field width) =
      .ok ((List.range width).map (laneWord phases field width)) := by
  refine mapM_ok fun lane hm => gatherLane_ok (by rw [hl]; decide) ?_ (List.mem_range.mp hm) field
  simp only [maxDatabits] at hw
  omega

theorem Phy.Follows.clockIn_eq_ok {q : Phy} (h : p.Follows config settings inputs)
    (hs : Phy.Sound config settings) (hl : i.phases.length = phasesPerCycle)
    (hr : p.registers = i.registers) :
    p.clockIn i.registers.sample i.phases i.pads = .ok q ↔ p.Room ∧
      p.next i (frameAfter settings.timing.writeTap inputs i) = q := by
  have hbytes : p.config.bytes ≤ maxDatabits := by
    have := hs.databits_le
    rw [h.config_eq, PhyConfig.bytes, byteLanes]
    omega
  have hdatabits : p.config.databits ≤ maxDatabits := by rw [h.config_eq]; exact hs.databits_le
  have hframe : p.framing.frame (i.phases.any (·.wrdataEn)) i.registers.sample.leveling =
      .ok (frameAfter settings.timing.writeTap inputs i) := by
    rw [h.framing, WriteFraming.fed_frame hs.tap_lt]
    rfl
  have hwrite : ∀ byte, byte < 64 → i.registers.sample.writeMove byte = .ok (i.writeMoved byte) :=
    fun _ hb => CalibrationSample.move_ok _ _ hb
  have hread : ∀ byte, byte < 64 → i.registers.sample.readMove byte = .ok (i.readMoved byte) :=
    fun _ hb => CalibrationSample.move_ok _ _ hb
  have hdq : ∀ byte ∈ dqBytes config.databits, byte < 64 := fun _ => mem_dqBytes_lt hs.databits_le
  have hrange : ∀ byte ∈ List.range config.bytes, byte < 64 := by
    intro byte hm
    have := List.mem_range.mp hm
    simp only [h.config_eq, maxDatabits] at hbytes
    omega
  have hmask : ∀ byte ∈ (if config.maskedWrite then List.range config.bytes else []), byte < 64 := by
    intro byte hm
    split_ifs at hm
    · exact hrange byte hm
    · simp at hm
  have hdqWrite := h.dqWrite.tick_ok (fun b hb => hwrite b (hdq b hb))
  have hdqRead := h.dqRead.tick_ok (fun b hb => hread b (hdq b hb))
  have hdqsWrite := h.dqsWrite.tick_ok (fun b hb => hwrite b (hrange b hb))
  have hdmiWrite := h.dmiWrite.tick_ok (fun b hb => hwrite b (hmask b hb))
  have hdata := gatherLanes_ok p.config.databits Phase.wrdata hl hdatabits
  have hmasks := gatherLanes_ok p.config.bytes Phase.mask hl hbytes
  have hcommands : (i.phases.map (·.command)).length = phasesPerCycle := by rw [List.length_map, hl]
  simp only [Phy.clockIn, hframe, hdata, hmasks, hdqWrite, hdqRead, hdqsWrite, hdmiWrite, ok_bind,
    bind_eq_ok, pure_eq_ok, Count.add_eq_ok, Arbiter.tick_eq_ok h.arbiter_follows, hcommands]
  constructor
  · rintro ⟨_, ⟨-, hroom, rfl⟩, _, ⟨hcycle, rfl⟩, rfl⟩
    refine ⟨⟨hroom, hcycle⟩, ?_⟩
    rw [hr]
    rfl
  · rintro ⟨⟨hroom, hcycle⟩, rfl⟩
    refine ⟨_, ⟨trivial, hroom, rfl⟩, _, ⟨hcycle, rfl⟩, ?_⟩
    rw [hr]
    rfl

theorem Phy.Follows.step_eq_ok (h : p.Follows config settings inputs) (hs : Phy.Sound config settings)
    (hr : p.registers = i.registers) :
    p.step i.phases i.pads = .ok c ↔ i.WellFormed config.databits ∧ p.Room ∧
      c = ⟨p.next i (frameAfter settings.timing.writeTap inputs i), p.returned i, p.pads⟩ := by
  simp only [Phy.step, bind_eq_ok, require_eq_ok, pure_eq_ok, h.drive_ok, h.config_eq, hr, exists_const,
    Except.ok.injEq, exists_eq_left', CycleInput.WellFormed, and_assoc]
  refine and_congr_right fun hl => and_congr_right fun _ => ?_
  have hclock := fun q => h.clockIn_eq_ok (q := q) hs hl hr
  constructor
  · rintro ⟨returned, hreturned, q, hq, rfl⟩
    obtain ⟨hroom, rfl⟩ := (hclock q).mp hq
    exact ⟨hroom, by rw [Except.ok.inj (hreturned.symm.trans (h.returnData_ok hs hl))]⟩
  · rintro ⟨hroom, rfl⟩
    exact ⟨_, h.returnData_ok hs hl, _, (hclock _).mpr ⟨hroom, rfl⟩, rfl⟩

theorem Phy.Follows.cycleOn_eq_ok (h : p.Follows config settings inputs) (hs : Phy.Sound config settings) :
    p.cycleOn i = .ok c ↔ i.WellFormed config.databits ∧ p.Room ∧
      c = ⟨p.next i (frameAfter settings.timing.writeTap inputs i), p.returned i, p.pads⟩ :=
  (h.of_registers i.registers).step_eq_ok hs rfl

theorem Phy.Follows.next (h : p.Follows config settings inputs) (hi : i.WellFormed config.databits)
    (hroom : p.Room) :
    (p.next i (frameAfter settings.timing.writeTap inputs i)).Follows config settings
      (inputs ++ [i]) := by
  have hframes : (writeFrames settings.timing.writeTap inputs).length = inputs.length := by
    simp [writeFrames]
  refine ⟨h.config_eq, h.settings_eq, ?_, ?_, ?_, ?_, ?_, ?_, ?_, ?_, ?_, ?_, ?_, ?_, ?_⟩
  · rw [List.map_append, List.map_singleton, Arbiter.after_singleton, h.arbiter, ok_bind]
    exact (Arbiter.tick_eq_ok h.arbiter_follows).mpr
      ⟨by rw [CycleInput.commands, List.length_map, hi.1], hroom.1, rfl⟩
  · rw [Phy.next, h.cke, DelayLine.fed_tick, List.map_append, List.map_singleton]
  · rw [Phy.next, h.odt, DelayLine.fed_tick, List.map_append, List.map_singleton]
  · rw [Phy.next, h.resetN, DelayLine.fed_tick, List.map_append, List.map_singleton]
  · refine h.dqWrite.next (by simp [CycleInput.dqWords, dqBytes, h.config_eq]) ?_
    intro k byte word hb hw
    obtain ⟨hk, rfl⟩ := dqBytes_getElem? hb
    rw [List.map_append, List.map_singleton, CycleInput.written, received_append]
    congr 2
    simpa [CycleInput.dqWords, h.config_eq, hk] using hw
  · refine h.dqRead.next (by simp [dqBytes, hi.2]) ?_
    intro k byte word hb hw
    obtain ⟨hk, rfl⟩ := dqBytes_getElem? hb
    rw [List.map_append, List.map_singleton, CycleInput.sampled, received_append, hw, Option.getD_some]
  · refine h.dqsWrite.next (by simp [h.config_eq]) ?_
    intro k byte word hb hw
    obtain ⟨hk, rfl⟩ := List.getElem?_eq_some_iff.mp hb
    obtain ⟨-, rfl⟩ := List.getElem?_eq_some_iff.mp hw
    rw [writeFrames_append, List.zip_append hframes.symm, List.map_append, List.zip_cons_cons,
      List.zip_nil_left, List.map_singleton, CycleInput.strobed, received_append, List.getElem_range,
      List.getElem_replicate, h.config_eq]
  · refine h.dmiWrite.next ?_ ?_
    · split_ifs <;> simp [CycleInput.dmiWords, h.config_eq]
    · intro k byte word hb hw
      have hk : k < config.bytes ∧ byte = k := by
        split_ifs at hb
        · obtain ⟨hk, rfl⟩ := List.getElem?_eq_some_iff.mp hb
          simpa using hk
        · simp at hb
      obtain ⟨hlt, rfl⟩ := hk
      rw [List.map_append, List.map_singleton, CycleInput.masked, received_append]
      congr 2
      simpa [CycleInput.dmiWords, h.config_eq, hlt] using hw
  · rw [Phy.next, h.readEnables, DelayLine.fed_tick, List.map_append, List.map_singleton]
  · rw [Phy.next, h.framing, WriteFraming.fed_tick, List.map_append, List.map_singleton]
  · rw [Phy.next, h.dqOe, DelayLine.fed_tick, writeFrames_append, List.map_append, List.map_singleton]
  · rw [Phy.next, h.dqsOe, DelayLine.fed_tick, writeFrames_append, List.map_append, List.map_singleton]
  · rw [Phy.next, h.cycle_eq, List.length_append, List.length_singleton]

end DramPhy
