import DramPhy.Proofs.Phy.Loopback
import DramPhy.Proofs.Phy.PulseCount

/-! Write leveling. A step that finds the strobe fired, however often, sends one half tick on
the strobes of all bytes, whatever writes are still on their way. The slip of a byte tells
where in the next cycle it comes out. -/

namespace DramPhy

/-- The leveling strobe has been fired since the last step. -/
def StrobePending (actions : List PhyAction) : Prop :=
  .write .fireStrobe ∈ sinceStep actions

instance : DecidablePred StrobePending := fun _ => inferInstanceAs (Decidable (_ ∈ _))

/-- Write leveling is on, and nothing moves the write lanes of a byte. -/
def CycleInput.Leveled (i : CycleInput) (byte : Nat) : Prop :=
  i.leveling = true ∧ i.writeMoved byte = ⟨false, false⟩

instance (i : CycleInput) (byte : Nat) : Decidable (i.Leveled byte) :=
  inferInstanceAs (Decidable (_ ∧ _))

/-- What cycle `t` shows of a byte with some slip, where write leveling is on from cycle
`start` on. -/
structure LevelingCycle (inputs : List CycleInput) (start byte slip t : Nat) (c : PhyCycle) : Prop where
  records : c.phases.length = phasesPerCycle
  valid : ∀ ph ∈ c.phases, ph.rddataValid = true
  dqsOe : start + 1 ≤ t → c.pads.dqsOe = true
  /-- Half tick `slip` tells whether the cycle before was strobed, the others are low. -/
  single : start + 2 ≤ t → ∀ i j, inputs[t - 1]? = some i → j < laneBits →
    c.pads.bit (.dqs byte) j = .ok (i.registers.levelingStrobe && decide (j = slip))
  pulses : start + 2 ≤ t → ∀ j, j < laneBits → ∃ b, c.pads.bit (.dqs byte) j = .ok b ∧
    (b = true ↔ ∃ u i, start ≤ u ∧ inputs[u]? = some i ∧ i.registers.levelingStrobe = true ∧
      laneBits * t + j = laneBits * (u + 1) + slip)

variable {p q : Phy} {config : PhyConfig} {table : CasTable} {settings : Settings}
  {inputs more : List CycleInput} {i : CycleInput} {byte lane j t u : Nat}
  {actions : List PhyAction} {r : CalibrationRegisters}

theorem CalibrationRegisters.afterActions_strobe (h : r.levelingStrobe = false)
    (actions : List PhyAction) :
    (r.afterActions actions).levelingStrobe = true ↔ StrobePending actions := by
  induction actions using List.reverseRecOn with
  | nil => simp [CalibrationRegisters.afterActions, StrobePending, sinceStep, h]
  | append_singleton actions action ih =>
    rw [CalibrationRegisters.afterActions_append, StrobePending]
    cases action with
    | step phases pads =>
      rw [sinceStep_append_step]
      exact iff_of_false Bool.false_ne_true List.not_mem_nil
    | write w =>
      rw [sinceStep_append_write, List.mem_append, List.mem_singleton, ← StrobePending, ← ih]
      cases w with
      | fireStrobe => simp [CalibrationRegisters.act, CalibrationRegisters.put]
      | fire path pulse => cases path <;> simp [CalibrationRegisters.act, CalibrationRegisters.put]
      | _ => simp [CalibrationRegisters.act, CalibrationRegisters.put]

/-- The cycles of a run of actions are its steps, each with the registers that it finds. -/
theorem cyclesFrom_getElem? : (cyclesFrom r actions)[u]? = some i ↔
    ∃ v phases pads, actions[v]? = some (.step phases pads) ∧
      (actions.take v).countP PhyAction.isStep = u ∧
      ⟨r.afterActions (actions.take v), phases, pads⟩ = i := by
  induction actions generalizing r u with
  | nil => simp [cyclesFrom]
  | cons action actions ih =>
    -- the first action, or one of the others
    rw [cyclesFrom, ← Nat.or_exists_add_one]
    cases action with
    | write w => simp [PhyAction.cycle?, PhyAction.isStep, CalibrationRegisters.afterActions, ih]
    | step phases pads =>
      have hcount : ∀ rest : List PhyAction,
          (PhyAction.step phases pads :: rest).countP PhyAction.isStep =
            rest.countP PhyAction.isStep + 1 := fun rest => List.countP_cons_of_pos rfl
      cases u with
      | zero => simp [PhyAction.cycle?, CalibrationRegisters.afterActions, hcount]
      | succ u => simp [PhyAction.cycle?, CalibrationRegisters.afterActions, hcount, ih]

theorem cyclesFrom_strobe (h : r.levelingStrobe = false) (hi : (cyclesFrom r actions)[u]? = some i) :
    i.registers.levelingStrobe = true ↔ ∃ v, StepFinds StrobePending actions v ∧
      (actions.take v).countP PhyAction.isStep = u := by
  constructor
  · intro hstrobe
    obtain ⟨v, phases, pads, hv, hcount, rfl⟩ := cyclesFrom_getElem?.mp hi
    exact ⟨v, ⟨by rw [hv]; rfl, (CalibrationRegisters.afterActions_strobe h _).mp hstrobe⟩, hcount⟩
  · rintro ⟨v, ⟨hstep, hpending⟩, hcount⟩
    obtain ⟨action, hv, haction⟩ := (Option.any_eq_true _ _).mp hstep
    cases action with
    | write w => cases haction
    | step phases pads =>
      have hfound := cyclesFrom_getElem? (r := r).mpr ⟨v, phases, pads, hv, hcount, rfl⟩
      obtain rfl := Option.some.inj (hfound.symm.trans hi)
      exact (CalibrationRegisters.afterActions_strobe h _).mpr hpending

theorem Phy.build_strobe (h : Phy.build config table = .ok p) : p.registers.levelingStrobe = false := by
  obtain ⟨_, _, hregisters⟩ := Phy.build_make h
  rw [hregisters]
  rfl

theorem CycleInput.strobeWord_leveled (h : i.leveling = true) (patterns : StrobePatterns)
    (frame : StrobeFrame) (k : Nat) : (i.strobeWord patterns frame).getLsbD k =
      (i.registers.levelingStrobe && decide (k = 0)) := by
  rw [CycleInput.strobeWord, StrobePatterns.word, if_pos h]
  cases i.registers.levelingStrobe <;> simp

section

variable (hleveled : ∀ i ∈ more, i.Leveled byte)

include hleveled

theorem leveled_of_getElem? (hu : inputs.length ≤ u) (hi : (inputs ++ more)[u]? = some i) :
    i.Leveled byte := by
  rw [List.getElem?_append_right hu] at hi
  exact hleveled i (List.mem_of_getElem? hi)

variable (h : p.Follows config settings ((inputs ++ more).take t))
  (hlt : t < (inputs ++ more).length)

include h hlt

theorem Phy.Follows.leveled_dqsOe (ht : inputs.length + 1 ≤ t) : p.pads.dqsOe = true := by
  have hi := List.getElem?_eq_getElem (show t - 1 < (inputs ++ more).length by omega)
  obtain ⟨hlevel, -⟩ := leveled_of_getElem? hleveled (show inputs.length ≤ t - 1 by omega) hi
  have hearlier : earlier (inputs ++ more) CycleInput.leveling t 1 = true := by
    rw [earlier, hi, Option.any_some, hlevel, decide_eq_true (by omega), Bool.and_self]
  change p.dqsOe.held 0 = true
  rw [h.dqsOe_held, ago_eq_earlier (Nat.le_of_lt hlt), hearlier]
  rfl

/-- The word that is chosen in cycle `u` is on the pads in cycle `u + 1`, at the slip. -/
theorem Phy.Follows.leveled_single (hc : p.Calibrated ((inputs ++ more).take t))
    (hbyte : byte < config.bytes) (ht : inputs.length + 2 ≤ t) (hj : j < laneBits)
    (hi : (inputs ++ more)[t - 1]? = some i) :
    p.pads.bit (.dqs byte) j = .ok (i.registers.levelingStrobe &&
      decide (j = slipAfter (inputs.map fun i => i.writeMoved byte))) := by
  have hstill : ∀ i ∈ more, i.writeMoved byte = ⟨false, false⟩ := fun i hm => (hleveled i hm).2
  have hslip := slipAfter_still hstill (show inputs.length ≤ t by omega)
  have hreset := lastReset_still hstill (show inputs.length ≤ t by omega)
  have hslipLt : slipAfter (inputs.map fun i => i.writeMoved byte) < 16 := slipAfter_lt _
  have hj16 : j < 16 := hj
  generalize slipAfter (inputs.map fun i => i.writeMoved byte) = slip at hslip hslipLt ⊢
  have hlen : ((inputs ++ more).take t).length = t := by
    rw [List.length_take, Nat.min_eq_left (Nat.le_of_lt hlt)]
  obtain ⟨pos, hpos⟩ : ∃ pos, pos + 16 + slip = 16 * t + j := ⟨16 * t + j - 16 - slip, by omega⟩
  obtain ⟨x, hx⟩ : ∃ x, (inputs ++ more)[pos / 16]? = some x :=
    ⟨_, List.getElem?_eq_getElem (by omega)⟩
  have hgiven : ((inputs ++ more).take t)[pos / 16]? = some x := by
    rwa [List.getElem?_take_of_lt (show pos / 16 < t by omega)]
  obtain ⟨hlevel, -⟩ := leveled_of_getElem? hleveled (show inputs.length ≤ pos / 16 by omega) hx
  have hbit := (h.dqs_sends hc hbyte).bit_since (strobed_resets _ _ _ _) hj pos
    (by rw [List.length_map, List.length_zip, writeFrames_length, Nat.min_self, hlen, hslip]
        exact hpos)
    (show 16 * _ ≤ pos by omega)
  rw [show laneBits = 16 from rfl, strobed_getElem? _ _ _ hgiven, Option.any_some,
    CycleInput.strobeWord_leveled hlevel] at hbit
  rw [hbit]
  by_cases hat : j = slip
  · obtain rfl : x = i := by
      rw [show pos / 16 = t - 1 by omega, hi] at hx
      exact (Option.some.inj hx).symm
    rw [decide_eq_true hat, decide_eq_true (show pos % 16 = 0 by omega)]
  · rw [decide_eq_false hat, decide_eq_false (show pos % 16 ≠ 0 by omega), Bool.and_false, Bool.and_false]

end

theorem LevelingCycle.of_single {start slip : Nat} {c : PhyCycle} (ht : t ≤ inputs.length)
    (hslip : slip < laneBits) (hrecords : c.phases.length = phasesPerCycle)
    (hvalid : ∀ ph ∈ c.phases, ph.rddataValid = true)
    (hdqsOe : start + 1 ≤ t → c.pads.dqsOe = true)
    (hsingle : start + 2 ≤ t → ∀ i j, inputs[t - 1]? = some i → j < laneBits →
      c.pads.bit (.dqs byte) j = .ok (i.registers.levelingStrobe && decide (j = slip))) :
    LevelingCycle inputs start byte slip t c := by
  refine ⟨hrecords, hvalid, hdqsOe, hsingle, fun hstart j hj => ?_⟩
  obtain ⟨last, hlast⟩ : ∃ last, inputs[t - 1]? = some last :=
    ⟨_, List.getElem?_eq_getElem (by omega)⟩
  refine ⟨_, hsingle hstart last j hlast hj, ?_⟩
  rw [Bool.and_eq_true, decide_eq_true_iff]
  simp only [laneBits, phasesPerCycle] at hslip hj ⊢
  constructor
  · rintro ⟨hstrobe, rfl⟩
    exact ⟨t - 1, last, by omega, hlast, hstrobe, by omega⟩
  · rintro ⟨u, i, -, hi, hstrobe, heq⟩
    rw [show u = t - 1 by omega, hlast, Option.some.injEq] at hi
    exact ⟨by rwa [hi], by omega⟩

section

variable (h : Phy.build config table = .ok p) (hq : p.after (inputs ++ more) = .ok q)
  (hleveled : ∀ i ∈ more, i.Leveled byte) (hbyte : byte < config.bytes)

include h hq hleveled hbyte

theorem Phy.leveled_slip (hlane : lane / 8 = byte) :
    q.writeSlip lane = .ok (slipAfter (inputs.map fun i => i.writeMoved byte)) := by
  obtain ⟨-, hfollows, hcalibrated⟩ := Phy.build_after h hq
  have hslip := slipAfter_still (fun i hm => (hleveled i hm).2)
    (show inputs.length ≤ (inputs ++ more).length by simp)
  rw [List.take_length] at hslip
  rw [hfollows.writeSlip_ok hcalibrated hbyte hlane, hslip]

theorem Phy.leveled_cycle (ht : inputs.length ≤ t) (hlt : t < (inputs ++ more).length) :
    ∃ c, p.cycleAt (inputs ++ more) t = .ok c ∧
      LevelingCycle (inputs ++ more) inputs.length byte
        (slipAfter (inputs.map fun i => i.writeMoved byte)) t c := by
  obtain ⟨-, hs, hf, -⟩ := Phy.build_follows h
  have hwf := (Phy.after_follows hs hf hq).2
  have hi := List.getElem?_eq_getElem hlt
  obtain ⟨hlevel, -⟩ := leveled_of_getElem? hleveled ht hi
  obtain ⟨before, c, hc, hphases, hpads, hfollows, hcalibrated⟩ := Phy.build_cycle h hq hi
  refine ⟨c, hc, LevelingCycle.of_single (Nat.le_of_lt hlt) (slipAfter_lt _) ?_ ?_ ?_ ?_⟩
  · rw [hphases, Phy.returned_length, (hwf _ (List.getElem_mem hlt)).1]
  · intro ph hm
    rw [hphases] at hm
    rw [hfollows.returned_valid hs ph hm, hlevel, Bool.or_true]
  · intro hstart
    rw [hpads]
    exact hfollows.leveled_dqsOe hleveled hlt hstart
  · intro hstart i j hlast hj
    rw [hpads]
    exact hfollows.leveled_single hleveled hlt hcalibrated hbyte hstart hj hlast

end

/-- While write leveling is on and the slip of a byte rests, its strobe shows one half tick
for each step that was strobed, and nothing else, whatever is being written. A step is
strobed if software has fired the strobe at least once since the step before. -/
theorem leveling_strobes_pulse (inputs : List CycleInput) (h : Phy.build config table = .ok p)
    (hq : p.after inputs = .ok q) (hbyte : byte < config.bytes) :
    (∀ more, (∀ i ∈ more, i.WellFormed config.databits) →
      phasesPerCycle * (inputs.length + more.length) < Count.limit →
      ∃ r, p.after (inputs ++ more) = .ok r) ∧
    (∃ slip, slip < laneBits ∧ ∀ more r, (∀ i ∈ more, i.Leveled byte) →
      p.after (inputs ++ more) = .ok r →
      (∀ lane, lane / 8 = byte → r.writeSlip lane = .ok slip) ∧
      ∀ t, inputs.length ≤ t → t < (inputs ++ more).length →
        ∃ c, p.cycleAt (inputs ++ more) t = .ok c ∧
          LevelingCycle (inputs ++ more) inputs.length byte slip t c) ∧
    ∀ actions : List PhyAction,
      ((∃ r, p.afterActions actions = .ok r) ↔
        ∃ r, p.after (cyclesFrom p.registers actions) = .ok r) ∧
      ∀ (u : Nat) (i : CycleInput), (cyclesFrom p.registers actions)[u]? = some i →
        (i.registers.levelingStrobe = true ↔ ∃ v, StepFinds StrobePending actions v ∧
          (actions.take v).countP PhyAction.isStep = u) := by
  obtain ⟨-, hs, hf, hsuppressed⟩ := Phy.build_follows h
  refine ⟨fun more hmore hlen => ?_, ⟨_, slipAfter_lt (inputs.map fun i => i.writeMoved byte),
    fun more r hleveled hr => ⟨fun lane hlane => Phy.leveled_slip h hr hleveled hbyte hlane,
      fun t ht hlt => Phy.leveled_cycle h hr hleveled hbyte ht hlt⟩⟩, fun actions => ⟨?_, ?_⟩⟩
  · exact Phy.after_extend hs hf hsuppressed hq hmore hlen
  · simp [Phy.afterActions_eq_ok]
  · intro u i hi
    exact cyclesFrom_strobe (Phy.build_strobe h) hi

/-- The write slip of byte 0 is advanced once. Then leveling goes on, and the strobe is fired
twice before a step that also writes. -/
def strobedRun : List PhyAction :=
  let step := PhyAction.step (List.replicate 8 Phase.idle) (PadInput.blank 16)
  let write := PhyAction.step ({ Phase.idle with wrdataEn := true } :: List.replicate 7 Phase.idle)
    (PadInput.blank 16)
  [.write (.bytes 1), .write (.fire .write .advance), step, .write (.leveling true), step,
    .write .fireStrobe, .write .fireStrobe, write, step]

theorem strobe_fired_twice_pulses_once :
    ∃ p, Phy.build (PhyConfig.ofClock 100000000) CasTable.mt53e256m16d1 = .ok p ∧
      ∃ c, p.cycleAt (cyclesFrom p.registers strobedRun) 3 = .ok c ∧ c.pads.dqsOe = true ∧
        (∀ ph ∈ c.phases, ph.rddataValid = true) ∧
        ∀ j, j < laneBits → c.pads.bit (.dqs 0) j = .ok (decide (j = 1)) := by
  obtain ⟨p, hp, hlen, hrest, q, hq, hslipped⟩ : ∃ p,
      Phy.build (PhyConfig.ofClock 100000000) CasTable.mt53e256m16d1 = .ok p ∧
        (cyclesFrom p.registers strobedRun).length = 4 ∧
        (∀ i ∈ (cyclesFrom p.registers strobedRun).drop 1, i.WellFormed 16 ∧ i.Leveled 0) ∧
        ∃ q, p.after ((cyclesFrom p.registers strobedRun).take 1) = .ok q ∧
          q.writeSlip 0 = .ok 1 := by
    decide +kernel
  obtain ⟨hruns, ⟨slip, -, hlevels⟩, hstrobes⟩ := leveling_strobes_pulse _ hp hq (show 0 < 2 by decide)
  obtain ⟨r, hr⟩ := hruns _ (fun i hi => (hrest i hi).1)
    (by rw [List.length_take, List.length_drop, hlen]; decide)
  obtain ⟨-, hcycles⟩ := hlevels _ r (fun i hi => (hrest i hi).2) hr
  obtain ⟨hslip, -⟩ := hlevels [] q (by simp) (by rwa [List.append_nil])
  obtain rfl : 1 = slip := Except.ok.inj (hslipped.symm.trans (hslip 0 rfl))
  rw [List.take_append_drop, List.length_take, hlen] at hcycles
  obtain ⟨c, hc, hleveled⟩ := hcycles 3 (by decide) (by decide)
  obtain ⟨i, hi⟩ : ∃ i, (cyclesFrom p.registers strobedRun)[2]? = some i :=
    ⟨_, List.getElem?_eq_getElem (by rw [hlen]; decide)⟩
  have hstrobe := ((hstrobes strobedRun).2 2 i hi).mpr ⟨7, by decide, by decide⟩
  refine ⟨p, hp, c, hc, hleveled.dqsOe (by decide), hleveled.valid, fun j hj => ?_⟩
  rw [hleveled.single (by decide) i j hi hj, hstrobe, Bool.true_and]

end DramPhy
