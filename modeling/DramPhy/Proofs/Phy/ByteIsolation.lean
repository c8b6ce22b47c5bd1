import DramPhy.Proofs.Phy.ReadTiming
import DramPhy.Proofs.Phy.WriteLanes

/-! The byte lanes do not interfere. Two runs that bring the same for one byte lane,
and the same of what all lanes share, cannot be told apart at that byte, whatever
happens at the others. -/

namespace DramPhy

/-- Both are there, and they are the same. -/
def Checked.Same {α : Type} (x y : Checked α) : Prop := ∃ a, x = .ok a ∧ y = .ok a

/-- Phases that ask the same of a byte lane. The read data that they come with may differ. -/
structure Phase.AgreesOn (databits byte : Nat) (ph other : Phase) : Prop where
  command : ph.command = other.command
  cke : ph.cke = other.cke
  odt : ph.odt = other.odt
  resetN : ph.resetN = other.resetN
  wrdataEn : ph.wrdataEn = other.wrdataEn
  rddataEn : ph.rddataEn = other.rddataEn
  wrdata : ∀ lane i, lane / 8 = byte → ph.wrdata.getLsbD (beatBit databits lane i) =
    other.wrdata.getLsbD (beatBit databits lane i)
  wrdataMask : ∀ i, ph.wrdataMask.getLsbD (beatBit (byteLanes databits) byte i) =
    other.wrdataMask.getLsbD (beatBit (byteLanes databits) byte i)

/-- Cycles that bring the same for a byte lane. The mask and strobe pads may differ. -/
structure CycleInput.AgreesOn (databits byte : Nat) (i j : CycleInput) : Prop where
  reset : i.registers.reset = j.registers.reset
  leveling : i.registers.leveling = j.registers.leveling
  levelingStrobe : i.registers.levelingStrobe = j.registers.levelingStrobe
  read : i.registers.read = j.registers.read
  write : i.registers.write = j.registers.write
  selected : i.registers.bytes.getLsbD byte = j.registers.bytes.getLsbD byte
  phases : List.Forall₂ (Phase.AgreesOn databits byte) i.phases j.phases
  dq_length : i.pads.dq.length = j.pads.dq.length
  dq : ∀ lane, lane / 8 = byte → i.pads.dq[lane]? = j.pads.dq[lane]?

/-- The pads of a cycle without the words of the data lanes. -/
def PadOutput.shared (out : PadOutput) : PadOutput := { out with dmi := [], dq := [], dqs := [] }

structure PadOutput.AgreesOn (byte : Nat) (out other : PadOutput) : Prop where
  shared : out.shared = other.shared
  dq : ∀ lane, lane / 8 = byte → Checked.Same (out.lane (.dq lane)) (other.lane (.dq lane))
  dmi : Checked.Same (out.lane (.dmi byte)) (other.lane (.dmi byte))
  dqs : Checked.Same (out.lane (.dqs byte)) (other.lane (.dqs byte))

structure Phase.ReturnsAlike (databits byte : Nat) (ph other : Phase) : Prop where
  rddataValid : ph.rddataValid = other.rddataValid
  rddata : ∀ lane i, lane / 8 = byte → ph.rddata.getLsbD (beatBit databits lane i) =
    other.rddata.getLsbD (beatBit databits lane i)

/-- Cycles that cannot be told apart at a byte lane: not on the pads, not by the data
returned and not by the slips and the count after the cycle. -/
structure PhyCycle.AgreesOn (databits byte : Nat) (c other : PhyCycle) : Prop where
  pads : c.pads.AgreesOn byte other.pads
  phases : List.Forall₂ (Phase.ReturnsAlike databits byte) c.phases other.phases
  readSlip : ∀ lane, lane / 8 = byte → Checked.Same (c.phy.readSlip lane) (other.phy.readSlip lane)
  writeSlip : ∀ lane, lane / 8 = byte → Checked.Same (c.phy.writeSlip lane) (other.phy.writeSlip lane)
  suppressed : c.phy.suppressed = other.phy.suppressed

/-- Banks over the bytes `bytes` with the same bitslips on the lanes of one byte. -/
def LaneBank.AgreesOn (bytes : List Nat) (byte : Nat) (bank other : LaneBank) : Prop :=
  ∀ k : Nat, bytes[k]? = some byte → bank.lanes[k]? = other.lanes[k]?

/-- All that a byte lane shares with the others is the same, and so are its bitslips. -/
structure Phy.AgreesOn (config : PhyConfig) (byte : Nat) (p q : Phy) : Prop where
  arbiter : p.arbiter = q.arbiter
  cke : p.cke = q.cke
  odt : p.odt = q.odt
  resetN : p.resetN = q.resetN
  dqWrite : p.dqWrite.AgreesOn (dqBytes config.databits) byte q.dqWrite
  dqRead : p.dqRead.AgreesOn (dqBytes config.databits) byte q.dqRead
  dqsWrite : p.dqsWrite.AgreesOn (List.range config.bytes) byte q.dqsWrite
  dmiWrite : p.dmiWrite.AgreesOn (if config.maskedWrite then List.range config.bytes else []) byte
    q.dmiWrite
  readEnables : p.readEnables = q.readEnables
  framing : p.framing = q.framing
  dqOe : p.dqOe = q.dqOe
  dqsOe : p.dqsOe = q.dqsOe
  cycle : p.cycle = q.cycle

theorem Phy.AgreesOn.refl (config : PhyConfig) (byte : Nat) (p : Phy) : p.AgreesOn config byte p :=
  ⟨rfl, rfl, rfl, rfl, fun _ _ => rfl, fun _ _ => rfl, fun _ _ => rfl, fun _ _ => rfl, rfl, rfl, rfl,
    rfl, rfl⟩

section

variable {α β : Type} {R : α → α → Prop} {xs ys : List α}

theorem forall₂_map_eq {f : α → β} (h : List.Forall₂ R xs ys) (hf : ∀ x y, R x y → f x = f y) :
    xs.map f = ys.map f := by
  rw [← List.forall₂_eq_eq_eq]
  exact List.rel_map (fun x y hxy => hf x y hxy) h

theorem forall₂_any_eq {f : α → Bool} (h : List.Forall₂ R xs ys) (hf : ∀ x y, R x y → f x = f y) :
    xs.any f = ys.any f := by
  have hmap := congrArg (List.any · id) (forall₂_map_eq h hf)
  simpa [List.any_map] using hmap

theorem forall₂_getElem?_any {f : α → Bool} (h : List.Forall₂ R xs ys)
    (hf : ∀ x y, R x y → f x = f y) (k : Nat) : xs[k]?.any f = ys[k]?.any f := by
  have hmap := congrArg (fun bits => bits[k]?.any id) (forall₂_map_eq h hf)
  simpa [Option.any_map] using hmap

theorem forall₂_replicate {x y : α} (h : R x y) (n : Nat) :
    List.Forall₂ R (List.replicate n x) (List.replicate n y) := by
  induction n with
  | zero => exact .nil
  | succ n ih => exact .cons h ih

theorem forall₂_append_singleton {x : α} (h : List.Forall₂ R (xs ++ [x]) ys) :
    ∃ before y, ys = before ++ [y] ∧ List.Forall₂ R xs before ∧ R x y := by
  have hrev := List.forall₂_reverse_iff.mpr h
  rw [List.reverse_append, List.reverse_singleton, List.singleton_append,
    List.forall₂_cons_left_iff] at hrev
  obtain ⟨y, rest, hxy, hrest, hys⟩ := hrev
  refine ⟨rest.reverse, y, ?_, List.forall₂_reverse_iff.mp ?_, hxy⟩
  · rw [← List.reverse_reverse ys, hys, List.reverse_cons]
  · rwa [List.reverse_reverse]

end

section

variable {phases phases' : List Phase} {R : Phase → Phase → Prop}
  (h : List.Forall₂ R phases phases')

include h

theorem flagWord_congr {flag : Phase → Bool} (hflag : ∀ ph other, R ph other → flag ph = flag other) :
    flagWord phases flag = flagWord phases' flag := by
  rw [flagWord, flagWord, h.length_eq]
  exact congrArg _ (funext fun k => forall₂_getElem?_any h hflag k)

theorem laneWord_congr {field : Phase → Word} {width lane : Nat}
    (hfield : ∀ ph other, R ph other → ∀ i, (field ph).getLsbD (beatBit width lane i) =
      (field other).getLsbD (beatBit width lane i)) :
    laneWord phases field width lane = laneWord phases' field width lane := by
  rw [laneWord, laneWord, h.length_eq]
  exact congrArg _ (funext fun i =>
    forall₂_getElem?_any h (fun ph other hr => hfield ph other hr i) (i / 2))

end

/-- The word of a lane settles its bits in both beats of every phase. -/
theorem beat_eq_of_laneWord {phases phases' : List Phase} {field : Phase → Word} {width lane k : Nat}
    (hl : phases.length = phasesPerCycle) (hl' : phases'.length = phasesPerCycle)
    (hword : laneWord phases field width lane = laneWord phases' field width lane)
    (hk : k < phases.length) (hk' : k < phases'.length) (i : Nat) :
    (field phases[k]).getLsbD (beatBit width lane i) =
      (field phases'[k]).getLsbD (beatBit width lane i) := by
  have hbits := congrArg (·.getLsbD (2 * k + i % 2)) hword
  rwa [laneWord_beat (by rw [hl]; decide) _ _ _ _ (List.getElem?_eq_getElem hk),
    laneWord_beat (by rw [hl']; decide) _ _ _ _ (List.getElem?_eq_getElem hk')] at hbits

section

variable {databits byte : Nat} {i j : CycleInput} (h : i.AgreesOn databits byte j)

include h

theorem CycleInput.AgreesOn.wellFormed (hi : i.WellFormed databits) : j.WellFormed databits :=
  ⟨by rw [← h.phases.length_eq, hi.1], by rw [← h.dq_length, hi.2]⟩

theorem CycleInput.AgreesOn.writing_eq : i.writing = j.writing :=
  forall₂_any_eq h.phases fun _ _ hph => hph.wrdataEn

theorem CycleInput.AgreesOn.reading_eq : i.reading = j.reading :=
  forall₂_any_eq h.phases fun _ _ hph => hph.rddataEn

theorem CycleInput.AgreesOn.commands_eq : i.commands = j.commands :=
  forall₂_map_eq h.phases fun _ _ hph => hph.command

theorem CycleInput.AgreesOn.writeMoved_eq : i.writeMoved byte = j.writeMoved byte := by
  simp only [CycleInput.writeMoved, CalibrationSample.moved, CalibrationRegisters.sample, h.reset,
    h.write, h.selected]

theorem CycleInput.AgreesOn.readMoved_eq : i.readMoved byte = j.readMoved byte := by
  simp only [CycleInput.readMoved, CalibrationSample.moved, CalibrationRegisters.sample, h.reset,
    h.read, h.selected]

theorem CycleInput.AgreesOn.strobeWord_eq (patterns : StrobePatterns) (frame : StrobeFrame) :
    i.strobeWord patterns frame = j.strobeWord patterns frame := by
  simp only [CycleInput.strobeWord, CycleInput.leveling, h.leveling, h.levelingStrobe]

theorem CycleInput.AgreesOn.dqWords_getElem? {lane : Nat} (hlane : lane / 8 = byte) :
    (i.dqWords databits)[lane]? = (j.dqWords databits)[lane]? := by
  rw [CycleInput.dqWords, CycleInput.dqWords, List.getElem?_map, List.getElem?_map]
  refine Option.map_congr fun k hk => ?_
  obtain ⟨-, rfl⟩ := List.getElem?_eq_some_iff.mp hk
  rw [List.getElem_range]
  exact laneWord_congr h.phases fun _ _ hph b => hph.wrdata lane b hlane

theorem CycleInput.AgreesOn.dmiWords_getElem? :
    (i.dmiWords (byteLanes databits))[byte]? = (j.dmiWords (byteLanes databits))[byte]? := by
  rw [CycleInput.dmiWords, CycleInput.dmiWords, List.getElem?_map, List.getElem?_map]
  refine Option.map_congr fun k hk => ?_
  obtain ⟨-, rfl⟩ := List.getElem?_eq_some_iff.mp hk
  rw [List.getElem_range]
  refine laneWord_congr h.phases fun ph other hph b => ?_
  rw [Phase.mask_getLsbD, Phase.mask_getLsbD, hph.wrdataMask]

end

section

variable {bank other : LaneBank} {bytes : List Nat} {words : Nat → List Word} {byte k : Nat}
  (h : bank.AgreesOn bytes byte other) (hf : bank.Follows bytes words)

include h hf

theorem LaneBank.AgreesOn.next {moved moved' : Nat → SlipMove} {inputs inputs' : List Word}
    (hmoved : moved byte = moved' byte)
    (hinputs : ∀ k : Nat, bytes[k]? = some byte → inputs[k]? = inputs'[k]?) :
    (bank.next moved inputs).AgreesOn bytes byte (other.next moved' inputs') := by
  intro k hk
  have hzip : (bank.lanes.zip inputs)[k]? = (other.lanes.zip inputs')[k]? := by
    rw [List.zip_eq_zipWith, List.zip_eq_zipWith, List.getElem?_zipWith, List.getElem?_zipWith, h k hk, hinputs k hk]
  rw [LaneBank.next, LaneBank.next, List.getElem?_map, List.getElem?_map, ← hzip]
  refine Option.map_congr fun x hx => ?_
  have hbyte := hf.byte_eq (List.getElem?_zip_eq_some.mp hx).1
  obtain rfl : byte = x.1.byte := Option.some.inj (hk.symm.trans hbyte)
  rw [hmoved]

theorem LaneBank.AgreesOn.same_lane (hk : bytes[k]? = some byte) :
    ∃ own, bank.lanes[k]? = some own ∧ other.lanes[k]? = some own := by
  obtain ⟨own, hown, -⟩ := hf.exists_lane hk
  exact ⟨own, hown, by rw [← h k hk, hown]⟩

theorem LaneBank.AgreesOn.window_same (hk : bytes[k]? = some byte) :
    Checked.Same (entry bank.windows k) (entry other.windows k) := by
  obtain ⟨own, hown, hother⟩ := h.same_lane hf hk
  refine ⟨own.slip.window, entry_eq_ok.mpr ?_, entry_eq_ok.mpr ?_⟩
  · rw [LaneBank.windows, List.getElem?_map, hown, Option.map_some]
  · rw [LaneBank.windows, List.getElem?_map, hother, Option.map_some]

theorem LaneBank.AgreesOn.slip_same (hk : bytes[k]? = some byte) :
    Checked.Same (bank.slip k) (other.slip k) := by
  obtain ⟨own, hown, hother⟩ := h.same_lane hf hk
  refine ⟨own.slip.slip, ?_, ?_⟩
  · rw [LaneBank.slip, entry_eq_ok.mpr hown, ok_bind, pure_eq_ok]
  · rw [LaneBank.slip, entry_eq_ok.mpr hother, ok_bind, pure_eq_ok]

end

section

variable {p q : Phy} {config : PhyConfig} {settings : Settings} {inputs inputs' : List CycleInput}
  {i j : CycleInput} {byte : Nat} (h : p.AgreesOn config byte q)
  (hp : p.Follows config settings inputs)

include h

theorem Phy.AgreesOn.room (hroom : p.Room) : q.Room := by
  rwa [Phy.Room, ← h.arbiter, ← h.cycle]

include hp

theorem Phy.AgreesOn.readSlip_same (hbyte : byte < config.bytes) {lane : Nat}
    (hlane : lane / 8 = byte) : Checked.Same (p.readSlip lane) (q.readSlip lane) :=
  h.dqRead.slip_same hp.dqRead (dqBytes_of_byte hbyte hlane)

theorem Phy.AgreesOn.writeSlip_same (hbyte : byte < config.bytes) {lane : Nat}
    (hlane : lane / 8 = byte) : Checked.Same (p.writeSlip lane) (q.writeSlip lane) :=
  h.dqWrite.slip_same hp.dqWrite (dqBytes_of_byte hbyte hlane)

variable (hq : q.Follows config settings inputs')

include hq

theorem Phy.AgreesOn.pads (hbyte : byte < config.bytes) : p.pads.AgreesOn byte q.pads := by
  have hconfig : p.config = q.config := hp.config_eq.trans hq.config_eq.symm
  refine ⟨?_, fun lane hlane => ?_, ?_, ?_⟩
  · simp only [Phy.pads, PadOutput.shared, h.cke, h.odt, h.resetN, h.arbiter, h.dqOe, h.dqsOe, hconfig]
  · exact h.dqWrite.window_same hp.dqWrite (dqBytes_of_byte hbyte hlane)
  · change Checked.Same
      (entry (if p.config.maskedWrite then p.dmiWrite.windows else List.replicate p.config.bytes 0) byte)
      (entry (if q.config.maskedWrite then q.dmiWrite.windows else List.replicate q.config.bytes 0) byte)
    rw [hp.config_eq, hq.config_eq]
    by_cases hmask : config.maskedWrite = true
    · rw [if_pos hmask, if_pos hmask]
      exact h.dmiWrite.window_same hp.dmiWrite (by rw [if_pos hmask, List.getElem?_range hbyte])
    · rw [if_neg hmask, if_neg hmask]
      have hzero : entry (List.replicate config.bytes (0 : Word)) byte = .ok 0 :=
        entry_eq_ok.mpr (List.getElem?_replicate_of_lt hbyte)
      exact ⟨0, hzero, hzero⟩
  · exact h.dqsWrite.window_same hp.dqsWrite (List.getElem?_range hbyte)

variable (hs : Phy.Sound config settings) (hij : i.AgreesOn config.databits byte j)

include hs hij

theorem Phy.AgreesOn.frame_eq : frameAfter settings.timing.writeTap inputs i =
    frameAfter settings.timing.writeTap inputs' j := by
  have hframe : p.framing.frame i.writing i.leveling =
      .ok (frameAfter settings.timing.writeTap inputs i) := by
    rw [hp.framing, WriteFraming.fed_frame hs.tap_lt]
    rfl
  have hother : q.framing.frame j.writing j.leveling =
      .ok (frameAfter settings.timing.writeTap inputs' j) := by
    rw [hq.framing, WriteFraming.fed_frame hs.tap_lt]
    rfl
  rw [h.framing, hij.writing_eq, CycleInput.leveling, hij.leveling] at hframe
  exact Except.ok.inj (hframe.symm.trans hother)

theorem Phy.AgreesOn.next :
    (p.next i (frameAfter settings.timing.writeTap inputs i)).AgreesOn config byte
      (q.next j (frameAfter settings.timing.writeTap inputs' j)) := by
  have hconfig : p.config = q.config := hp.config_eq.trans hq.config_eq.symm
  have hdq : ∀ k : Nat, (dqBytes config.databits)[k]? = some byte → k / 8 = byte :=
    fun k hk => (dqBytes_getElem? hk).2.symm
  rw [h.frame_eq hp hq hs hij]
  refine ⟨?_, ?_, ?_, ?_, ?_, ?_, ?_, ?_, ?_, ?_, ?_, ?_, ?_⟩
  · rw [Phy.next, Phy.next, h.arbiter, hij.commands_eq]
  · rw [Phy.next, Phy.next, h.cke, flagWord_congr hij.phases fun _ _ hph => hph.cke]
  · rw [Phy.next, Phy.next, h.odt, flagWord_congr hij.phases fun _ _ hph => hph.odt]
  · rw [Phy.next, Phy.next, h.resetN, flagWord_congr hij.phases fun _ _ hph => hph.resetN]
  · refine h.dqWrite.next hp.dqWrite hij.writeMoved_eq fun k hk => ?_
    rw [hp.config_eq, hq.config_eq]
    exact hij.dqWords_getElem? (hdq k hk)
  · exact h.dqRead.next hp.dqRead hij.readMoved_eq fun k hk => hij.dq k (hdq k hk)
  · refine h.dqsWrite.next hp.dqsWrite hij.writeMoved_eq fun k _ => ?_
    rw [hconfig, hij.strobeWord_eq]
  · refine h.dmiWrite.next hp.dmiWrite hij.writeMoved_eq fun k hk => ?_
    obtain rfl : byte = k := by
      split_ifs at hk
      · obtain ⟨hlt, hrange⟩ := List.getElem?_eq_some_iff.mp hk
        rw [← hrange, List.getElem_range]
      · simp at hk
    rw [hp.config_eq, hq.config_eq]
    exact hij.dmiWords_getElem?
  · rw [Phy.next, Phy.next, h.readEnables, hij.reading_eq]
  · rw [Phy.next, Phy.next, h.framing, hij.writing_eq]
  · rw [Phy.next, Phy.next, h.dqOe]
  · rw [Phy.next, Phy.next, h.dqsOe]
  · rw [Phy.next, Phy.next, h.cycle]

theorem Phy.AgreesOn.returned (hbyte : byte < config.bytes) (hl : i.phases.length = phasesPerCycle) :
    List.Forall₂ (Phase.ReturnsAlike config.databits byte) (p.returned i) (q.returned j) := by
  have hl' : j.phases.length = phasesPerCycle := by rw [← hij.phases.length_eq, hl]
  have hlen : (p.returned i).length = phasesPerCycle := by rw [Phy.returned_length, hl]
  have hlen' : (q.returned j).length = phasesPerCycle := by rw [Phy.returned_length, hl']
  have hvalid : ago false (inputs.map (·.reading)) (settings.timing.readLatency - 1) =
      ago false (inputs'.map (·.reading)) (settings.timing.readLatency - 1) := by
    have hpos := hs.readLatency_pos
    have hheld := congrArg (·.held (settings.timing.readLatency - 1)) h.readEnables
    simp only [hp.readEnables, hq.readEnables] at hheld
    rwa [DelayLine.fed_held (by omega), DelayLine.fed_held (by omega)] at hheld
  refine List.forall₂_iff_get.mpr ⟨hlen.trans hlen'.symm, fun k hk hk' => ⟨?_, fun lane b hlane => ?_⟩⟩
  · rw [hp.returned_valid hs _ (List.get_mem _ _), hq.returned_valid hs _ (List.get_mem _ _), hvalid,
      CycleInput.leveling, CycleInput.leveling, hij.leveling]
  · obtain ⟨own, hown, hother⟩ := h.dqRead.same_lane hp.dqRead (dqBytes_of_byte hbyte hlane)
    refine beat_eq_of_laneWord hlen hlen' ?_ hk hk' b
    rw [hp.returned_laneWord hs hl hown, hq.returned_laneWord hs hl' hother]

theorem Phy.AgreesOn.cycle_same {c : PhyCycle} (hbyte : byte < config.bytes)
    (hc : p.cycleOn i = .ok c) : ∃ c', q.cycleOn j = .ok c' ∧ c.phy.AgreesOn config byte c'.phy ∧
      c.AgreesOn config.databits byte c' := by
  obtain ⟨hi, hroom, rfl⟩ := (hp.cycleOn_eq_ok hs).mp hc
  have hnext := h.next hp hq hs hij
  have hfollows := hp.next hi hroom
  refine ⟨_, (hq.cycleOn_eq_ok hs).mpr ⟨hij.wellFormed hi, h.room hroom, rfl⟩, hnext, ?_⟩
  exact ⟨h.pads hp hq hbyte, h.returned hp hq hs hij hbyte hi.1,
    fun _ hlane => hnext.readSlip_same hfollows hbyte hlane,
    fun _ hlane => hnext.writeSlip_same hfollows hbyte hlane,
    congrArg Arbiter.suppressed hnext.arbiter⟩

end

section

variable {p q : Phy} {config : PhyConfig} {table : CasTable} {settings : Settings}
  {inputs inputs' : List CycleInput} {byte : Nat}

theorem Phy.after_agreesOn (hs : Phy.Sound config settings) (hp : p.Follows config settings [])
    (hbyte : byte < config.bytes)
    (hruns : List.Forall₂ (CycleInput.AgreesOn config.databits byte) inputs inputs')
    (h : p.after inputs = .ok q) : ∃ q', p.after inputs' = .ok q' ∧ q.AgreesOn config byte q' := by
  -- from the last cycle back: before it both PHYs still follow their own runs
  induction inputs using List.reverseRecOn generalizing inputs' q with
  | nil =>
    obtain rfl := List.forall₂_nil_left_iff.mp hruns
    exact ⟨q, h, Phy.AgreesOn.refl config byte q⟩
  | append_singleton inputs i ih =>
    obtain ⟨before, j, rfl, hbefore, hij⟩ := forall₂_append_singleton hruns
    simp only [Phy.after_append, bind_eq_ok, pure_eq_ok] at h
    obtain ⟨r, hr, c, hc, rfl⟩ := h
    obtain ⟨r', hr', hagree⟩ := ih hbefore hr
    obtain ⟨c', hc', hphy, -⟩ := hagree.cycle_same (Phy.after_follows hs hp hr).1
      (Phy.after_follows hs hp hr').1 hs hij hbyte hc
    refine ⟨c'.phy, ?_, hphy⟩
    rw [Phy.after_append, hr', ok_bind, hc']
    rfl

/-- In every run a byte lane shows, returns and holds what its own inputs and the shared
ones make of it. -/
theorem byte_lane_isolated (h : Phy.build config table = .ok p) (hbyte : byte < config.bytes)
    (hruns : List.Forall₂ (CycleInput.AgreesOn config.databits byte) inputs inputs') :
    ((∀ i ∈ inputs, i.WellFormed config.databits) → phasesPerCycle * inputs.length < Count.limit →
      ∃ q, p.after inputs = .ok q) ∧
    ∀ q, p.after inputs = .ok q → (∃ q', p.after inputs' = .ok q') ∧ ∀ t, t < inputs.length →
      ∃ c c', p.cycleAt inputs t = .ok c ∧ p.cycleAt inputs' t = .ok c' ∧
        c.AgreesOn config.databits byte c' := by
  obtain ⟨-, hs, hf, hsuppressed⟩ := Phy.build_follows h
  refine ⟨fun hwf hlen => ?_, fun q hq => ⟨?_, fun t ht => ?_⟩⟩
  · obtain ⟨q, hq, -⟩ := Phy.after_ok hs hf hsuppressed hwf hlen
    exact ⟨q, hq⟩
  · obtain ⟨q', hq', -⟩ := Phy.after_agreesOn hs hf hbyte hruns hq
    exact ⟨q', hq'⟩
  · obtain ⟨before, c, hbefore, hcycle, hc⟩ := Phy.after_take hq ht
    have ht' : t < inputs'.length := by rwa [← hruns.length_eq]
    obtain ⟨before', hbefore', hagree⟩ :=
      Phy.after_agreesOn hs hf hbyte (List.forall₂_take t hruns) hbefore
    obtain ⟨c', hcycle', -, hsame⟩ := hagree.cycle_same (Phy.after_follows hs hf hbefore).1
      (Phy.after_follows hs hf hbefore').1 hs (hruns.get ht ht') hbyte hcycle
    refine ⟨c, c', hc, ?_, hsame⟩
    rw [Phy.cycleAt, hbefore', ok_bind, entry_eq_ok.mpr (List.getElem?_eq_getElem ht'), ok_bind]
    exact hcycle'

end

/-- A phase that writes a byte, while its neighbour is quiet or not. -/
def neighbourPhase (noisy : Bool) : Phase :=
  { Phase.idle with
    wrdataEn := true
    wrdata := if noisy then 0xff5aff96 else 0x005a0096
    wrdataMask := if noisy then 0b1011 else 0b0001
    rddata := if noisy then 0xffffffff else 0
    rddataValid := noisy }

/-- The slips of byte 0 are advanced, those of its neighbour only if it is not quiet. -/
def neighbourCycle (noisy : Bool) : CycleInput where
  registers := { CalibrationRegisters.make 0 0 with
    bytes := if noisy then 0b11 else 0b01
    read := ⟨false, true⟩
    write := ⟨false, true⟩ }
  phases := List.replicate phasesPerCycle (neighbourPhase noisy)
  pads := ⟨[], List.replicate 8 0x1234 ++ List.replicate 8 (if noisy then 0xabcd else 0), []⟩

def neighbourRun (noisy : Bool) : List CycleInput := List.replicate 4 (neighbourCycle noisy)

theorem neighbourPhase_agreesOn : (neighbourPhase false).AgreesOn 16 0 (neighbourPhase true) := by
  have hdata : ∀ lane, lane < 8 → ∀ beat, beat < 2 →
      (neighbourPhase false).wrdata.getLsbD (beat * 16 + lane) =
        (neighbourPhase true).wrdata.getLsbD (beat * 16 + lane) := by decide
  have hmask : ∀ beat, beat < 2 → (neighbourPhase false).wrdataMask.getLsbD (beat * 2) =
      (neighbourPhase true).wrdataMask.getLsbD (beat * 2) := by decide
  exact ⟨rfl, rfl, rfl, rfl, rfl, rfl,
    fun lane i hlane => hdata lane (by omega) (i % 2) (Nat.mod_lt i (by decide)),
    fun i => hmask (i % 2) (Nat.mod_lt i (by decide))⟩

theorem neighbourCycle_agreesOn : (neighbourCycle false).AgreesOn 16 0 (neighbourCycle true) := by
  refine ⟨rfl, rfl, rfl, rfl, rfl, rfl, ?_, rfl, fun lane hlane => ?_⟩
  · exact forall₂_replicate neighbourPhase_agreesOn phasesPerCycle
  · have hlt : lane < (List.replicate 8 (0x1234 : Word)).length := by
      rw [List.length_replicate]
      omega
    simp only [neighbourCycle]
    rw [List.getElem?_append_left hlt, List.getElem?_append_left hlt]

theorem neighbour_unnoticed :
    ∃ p, Phy.build (PhyConfig.ofClock 100000000) CasTable.mt53e256m16d1 = .ok p ∧
      ∃ c, p.cycleAt (neighbourRun false) 3 = .ok c ∧
        ∃ c', p.cycleAt (neighbourRun true) 3 = .ok c' ∧
          c.AgreesOn 16 0 c' ∧ c.pads.dq ≠ c'.pads.dq := by
  obtain ⟨p, hp, quiet, hquiet, noisy, hnoisy, hne⟩ : ∃ p,
      Phy.build (PhyConfig.ofClock 100000000) CasTable.mt53e256m16d1 = .ok p ∧
        ∃ c, p.cycleAt (neighbourRun false) 3 = .ok c ∧
          ∃ c', p.cycleAt (neighbourRun true) 3 = .ok c' ∧ c.pads.dq ≠ c'.pads.dq := by
    decide +kernel
  have hruns : List.Forall₂ (CycleInput.AgreesOn (PhyConfig.ofClock 100000000).databits 0)
      (neighbourRun false) (neighbourRun true) := forall₂_replicate neighbourCycle_agreesOn 4
  obtain ⟨hshort, hsame⟩ := byte_lane_isolated hp (by decide) hruns
  obtain ⟨q, hq⟩ := hshort (by decide) (by decide)
  obtain ⟨c, c', hc, hc', hagree⟩ := (hsame q hq).2 3 (by decide)
  obtain rfl : quiet = c := Except.ok.inj (hquiet.symm.trans hc)
  obtain rfl : noisy = c' := Except.ok.inj (hnoisy.symm.trans hc')
  exact ⟨p, hp, quiet, hquiet, noisy, hnoisy, hagree, hne⟩

end DramPhy
