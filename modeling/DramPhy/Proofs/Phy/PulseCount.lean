import DramPhy.Proofs.Phy.CalibrationHistory
import DramPhy.Proofs.Phy.RegisterRun
import Mathlib.Data.Nat.Count

/-! What the slips of a lane are, told from the writes that software made. A step advances
a byte by one if the pulse was fired since the step before and the byte is selected, and
only the steps after the last reset of the byte count. -/

namespace DramPhy

/-- A pulse is pending for a byte. -/
def PendingFor (path : SlipPath) (pulse : SlipPulse) (byte : Nat) (actions : List PhyAction) : Prop :=
  Pending path pulse actions ∧ (selectedBytes actions).getLsbD byte = true

/-- The next step resets a byte. -/
def ResetFor (path : SlipPath) (byte : Nat) (actions : List PhyAction) : Prop :=
  resetLevel actions = true ∨ PendingFor path .reset byte actions

/-- Action `u` is a step, and what it finds has a property. -/
def StepFinds (P : List PhyAction → Prop) (actions : List PhyAction) (u : Nat) : Prop :=
  actions[u]?.any PhyAction.isStep = true ∧ P (actions.take u)

/-- Step `u` has advanced a byte that has not been reset since. -/
def CountsAt (path : SlipPath) (byte : Nat) (actions : List PhyAction) (u : Nat) : Prop :=
  StepFinds (PendingFor path .advance byte) actions u ∧
    ∀ r, u ≤ r → r < actions.length → ¬ StepFinds (ResetFor path byte) actions r

instance (path : SlipPath) (pulse : SlipPulse) (byte : Nat) :
    DecidablePred (PendingFor path pulse byte) := fun _ => inferInstanceAs (Decidable (_ ∧ _))

instance (path : SlipPath) (byte : Nat) : DecidablePred (ResetFor path byte) := fun _ =>
  inferInstanceAs (Decidable (_ ∨ _))

instance (P : List PhyAction → Prop) [DecidablePred P] (actions : List PhyAction) :
    DecidablePred (StepFinds P actions) := fun _ => inferInstanceAs (Decidable (_ ∧ _))

instance (path : SlipPath) (byte : Nat) (actions : List PhyAction) :
    DecidablePred (CountsAt path byte actions) := fun _ => inferInstanceAs (Decidable (_ ∧ _))

def advanceCount (path : SlipPath) (byte : Nat) (actions : List PhyAction) : Nat :=
  Nat.count (CountsAt path byte actions) actions.length

def CycleInput.moved (i : CycleInput) : SlipPath → Nat → SlipMove
  | .read => i.readMoved
  | .write => i.writeMoved

variable {p q : Phy} {config : PhyConfig} {table : CasTable} {actions : List PhyAction}
  {action : PhyAction} {phases : List Phase} {pads : PadInput} {path : SlipPath} {byte u : Nat}
  {r : CalibrationRegisters} {P : List PhyAction → Prop}

theorem stepFinds_append_left (action : PhyAction) (h : u < actions.length) :
    StepFinds P (actions ++ [action]) u ↔ StepFinds P actions u := by
  rw [StepFinds, StepFinds, List.getElem?_append_left h, List.take_append_of_le_length (Nat.le_of_lt h)]

theorem stepFinds_append_last :
    StepFinds P (actions ++ [action]) actions.length ↔ action.isStep = true ∧ P actions := by
  rw [StepFinds, List.getElem?_concat_length, Option.any_some, List.take_left]

theorem countsAt_append_left (h : u < actions.length) : CountsAt path byte (actions ++ [action]) u ↔
    CountsAt path byte actions u ∧
      ¬ StepFinds (ResetFor path byte) (actions ++ [action]) actions.length := by
  rw [CountsAt, CountsAt, stepFinds_append_left action h, and_assoc, List.length_append,
    List.length_singleton]
  refine and_congr_right fun _ => ⟨fun hall => ⟨fun r hu hr => ?_, ?_⟩, ?_⟩
  · rw [← stepFinds_append_left action hr]
    exact hall r hu (by omega)
  · exact hall actions.length (Nat.le_of_lt h) (by omega)
  · rintro ⟨hbefore, hlast⟩ r hu hr
    rcases Nat.lt_or_eq_of_le (Nat.le_of_lt_succ hr) with hr | rfl
    · rw [stepFinds_append_left action hr]
      exact hbefore r hu hr
    · exact hlast

theorem countsAt_append_last : CountsAt path byte (actions ++ [action]) actions.length ↔
    StepFinds (PendingFor path .advance byte) (actions ++ [action]) actions.length ∧
      ¬ StepFinds (ResetFor path byte) (actions ++ [action]) actions.length := by
  rw [CountsAt, List.length_append, List.length_singleton]
  refine and_congr_right fun _ => ⟨fun hall => hall _ (Nat.le_refl _) (by omega), fun hlast r hu hr => ?_⟩
  rwa [show r = actions.length by omega]

/-- A reset forgets the count, an advance adds one to it. -/
theorem advanceCount_append : advanceCount path byte (actions ++ [action]) =
    if action.isStep = true ∧ ResetFor path byte actions then 0
    else advanceCount path byte actions +
      if action.isStep = true ∧ PendingFor path .advance byte actions then 1 else 0 := by
  simp only [← stepFinds_append_last]
  by_cases hreset : StepFinds (ResetFor path byte) (actions ++ [action]) actions.length
  · rw [if_pos hreset, advanceCount, Nat.count_iff_forall_not]
    intro u hu hcounts
    rw [List.length_append, List.length_singleton] at hu
    exact hcounts.2 actions.length (Nat.le_of_lt_succ hu) (by simp) hreset
  · have hbefore : ∀ u, u < actions.length →
        (CountsAt path byte (actions ++ [action]) u ↔ CountsAt path byte actions u) := by
      intro u hu
      rw [countsAt_append_left hu, and_iff_left hreset]
    have hsame : Nat.count (CountsAt path byte (actions ++ [action])) actions.length =
        advanceCount path byte actions :=
      Nat.le_antisymm (Nat.count_mono_left fun u hu => (hbefore u hu).mp)
        (Nat.count_mono_left fun u hu => (hbefore u hu).mpr)
    rw [if_neg hreset, advanceCount, List.length_append, List.length_singleton, Nat.count_succ, hsame]
    simp only [countsAt_append_last, hreset, not_false_eq_true, and_true]

theorem CalibrationRegisters.ToldBy.moved_reset (h : r.ToldBy actions) :
    ((CycleInput.mk r phases pads).moved path byte).reset = true ↔ ResetFor path byte actions := by
  rw [ResetFor, PendingFor, ← h.reset, ← h.bytes, ← h.pending]
  cases path <;>
    simp [CycleInput.moved, CycleInput.readMoved, CycleInput.writeMoved, CalibrationSample.moved,
      CalibrationRegisters.sample, CalibrationRegisters.pulses, SlipPulses.pending, or_comm, and_comm]

theorem CalibrationRegisters.ToldBy.moved_advance (h : r.ToldBy actions) :
    ((CycleInput.mk r phases pads).moved path byte).advance = true ↔
      PendingFor path .advance byte actions := by
  rw [PendingFor, ← h.bytes, ← h.pending]
  cases path <;>
    simp [CycleInput.moved, CycleInput.readMoved, CycleInput.writeMoved, CalibrationSample.moved,
      CalibrationRegisters.sample, CalibrationRegisters.pulses, SlipPulses.pending, and_comm]

theorem slipAfter_cyclesFrom (h : r.ToldBy []) (path : SlipPath) (byte : Nat) (actions : List PhyAction) :
    slipAfter ((cyclesFrom r actions).map fun i => i.moved path byte) =
      advanceCount path byte actions % laneBits := by
  induction actions using List.reverseRecOn with
  | nil => rfl
  | append_singleton actions action ih =>
    have htold := CalibrationRegisters.afterActions_toldBy h actions
    rw [cyclesFrom_append, advanceCount_append, List.map_append]
    cases action with
    | write w =>
      simp [PhyAction.cycle?, ih, PhyAction.isStep]
    | step phases pads =>
      simp only [PhyAction.cycle?, Option.toList_some, List.map_singleton, slipAfter_append, ih,
        SlipMove.slipped, htold.moved_reset, htold.moved_advance, PhyAction.isStep, true_and]
      split_ifs
      · rfl
      · exact Nat.mod_add_mod _ _ _
      · rfl

theorem Phy.build_make (h : Phy.build config table = .ok p) :
    ∃ rdPhase wrPhase, p.registers = CalibrationRegisters.make rdPhase wrPhase := by
  simp only [Phy.build, bind_eq_ok, build_eq_ok] at h
  obtain ⟨_, -, hinitial⟩ := h
  simp only [Phy.initial, bind_eq_ok, pure_eq_ok] at hinitial
  obtain ⟨_, -, _, -, _, -, _, -, _, -, _, -, _, -, _, -, rfl⟩ := hinitial
  exact ⟨_, _, rfl⟩

theorem Phy.build_registers (h : Phy.build config table = .ok p) : p.registers.ToldBy [] := by
  obtain ⟨rdPhase, wrPhase, hregisters⟩ := Phy.build_make h
  rw [hregisters]
  exact CalibrationRegisters.make_toldBy rdPhase wrPhase

/-- The slips of a byte count the steps that found its advance pulse fired, since the last
one that reset it; no other step has an effect on them. -/
theorem slips_count_pulses (actions : List PhyAction) (h : Phy.build config table = .ok p) :
    ((∀ a ∈ actions, a.WellFormed config.databits) →
      phasesPerCycle * actions.countP PhyAction.isStep < Count.limit →
      ∃ q, p.afterActions actions = .ok q) ∧
    ∀ q, p.afterActions actions = .ok q → q.registers.ToldBy actions ∧
      ∀ lane, lane < config.databits →
        q.writeSlip lane = .ok (advanceCount .write (lane / 8) actions % laneBits) ∧
        q.readSlip lane = .ok (advanceCount .read (lane / 8) actions % laneBits) := by
  obtain ⟨-, hs, hf, hsuppressed⟩ := Phy.build_follows h
  have htold := Phy.build_registers h
  refine ⟨fun hwf hlen => ?_, fun q hq => ?_⟩
  · obtain ⟨next, hnext, -⟩ := Phy.after_ok hs hf hsuppressed
      (cyclesFrom_wellFormed hwf p.registers) (by rwa [cyclesFrom_length])
    exact ⟨_, Phy.afterActions_eq_ok.mpr ⟨next, hnext, rfl⟩⟩
  · obtain ⟨next, hnext, rfl⟩ := Phy.afterActions_eq_ok.mp hq
    obtain ⟨-, hfollows, hcalibrated⟩ := Phy.build_after h hnext
    refine ⟨CalibrationRegisters.afterActions_toldBy htold actions, fun lane hlane => ?_⟩
    have hbyte : (dqBytes config.databits)[lane]? = some (lane / 8) := by
      simp [dqBytes, hlane]
    rw [← slipAfter_cyclesFrom htold, ← slipAfter_cyclesFrom htold]
    exact ⟨hcalibrated.dqWrite.slip_eq_ok hfollows.dqWrite hbyte,
      hcalibrated.dqRead.slip_eq_ok hfollows.dqRead hbyte⟩

/-- Byte 0 is advanced by two fires at once, by none while byte 1 is selected, and not
again when it is back. -/
def pulsedRun : List PhyAction :=
  let step := PhyAction.step (List.replicate 8 Phase.idle) (PadInput.blank 16)
  [.write (.bytes 1), .write (.fire .write .advance), .write (.fire .write .advance), step, step,
    .write (.bytes 2), .write (.fire .write .advance), step, .write (.bytes 1), step]

theorem pulsed_byte_slips_once :
    ∃ p, Phy.build (PhyConfig.ofClock 100000000) CasTable.mt53e256m16d1 = .ok p ∧
      p.writeSlip 3 = .ok 0 ∧ ∃ q, p.afterActions pulsedRun = .ok q ∧ q.writeSlip 3 = .ok 1 ∧
        q.writeSlip 11 = .ok 1 ∧ q.readSlip 3 = .ok 0 := by
  obtain ⟨p, hp, hstart⟩ : ∃ p,
      Phy.build (PhyConfig.ofClock 100000000) CasTable.mt53e256m16d1 = .ok p ∧
        p.writeSlip 3 = .ok 0 := by
    decide +kernel
  obtain ⟨hruns, hslips⟩ := slips_count_pulses pulsedRun hp
  obtain ⟨q, hq⟩ := hruns (by decide) (by decide)
  obtain ⟨-, hlanes⟩ := hslips q hq
  have hfirst : advanceCount .write 0 pulsedRun % laneBits = 1 := by decide +kernel
  have hsecond : advanceCount .write 1 pulsedRun % laneBits = 1 := by decide +kernel
  have hread : advanceCount .read 0 pulsedRun % laneBits = 0 := by decide +kernel
  refine ⟨p, hp, hstart, q, hq, ?_, ?_, ?_⟩
  · rw [(hlanes 3 (by decide)).1, hfirst]
  · rw [(hlanes 11 (by decide)).1, hsecond]
  · rw [(hlanes 3 (by decide)).2, hread]

end DramPhy
