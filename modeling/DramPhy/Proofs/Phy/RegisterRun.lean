import DramPhy.Proofs.Phy.Run
import Mathlib.Data.List.DropRight

/-! Runs in which software writes the calibration registers between the steps. Such a run
is one of the cycles that its steps make of the registers, and what a step finds in these
can be told from the writes alone: a level is the one written last, a pulse is pending
if it was fired since the step before. -/

namespace DramPhy

/-- What happens to a PHY. -/
inductive PhyAction where
  | write (w : RegisterWrite)
  | step (phases : List Phase) (pads : PadInput)
  deriving DecidableEq

def PhyAction.isStep : PhyAction → Bool
  | .write _ => false
  | .step _ _ => true

def PhyAction.WellFormed (databits : Nat) : PhyAction → Prop
  | .write _ => True
  | .step phases pads => phases.length = phasesPerCycle ∧ pads.dq.length = databits

instance (databits : Nat) : DecidablePred (PhyAction.WellFormed databits)
  | .write _ => inferInstanceAs (Decidable True)
  | .step _ _ => inferInstanceAs (Decidable (_ ∧ _))

def Phy.act (p : Phy) : PhyAction → Checked Phy
  | .write w => .ok { p with registers := p.registers.put w }
  | .step phases pads => do
    let c ← p.step phases pads
    return c.phy

/-- The PHY once a sequence of actions has happened to it. -/
def Phy.afterActions (p : Phy) (actions : List PhyAction) : Checked Phy := actions.foldlM Phy.act p

def CalibrationRegisters.act (r : CalibrationRegisters) : PhyAction → CalibrationRegisters
  | .write w => r.put w
  | .step _ _ => r.consumed

def CalibrationRegisters.afterActions (r : CalibrationRegisters) (actions : List PhyAction) :
    CalibrationRegisters :=
  actions.foldl CalibrationRegisters.act r

def PhyAction.cycle? (r : CalibrationRegisters) : PhyAction → Option CycleInput
  | .write _ => none
  | .step phases pads => some ⟨r, phases, pads⟩

/-- The cycles that the steps of a run make, with the registers as each step finds them. -/
def cyclesFrom (r : CalibrationRegisters) : List PhyAction → List CycleInput
  | [] => []
  | action :: actions => (action.cycle? r).toList ++ cyclesFrom (r.act action) actions

def PhyAction.reset? : PhyAction → Option Bool
  | .write (.reset level) => some level
  | _ => none

def PhyAction.bytes? : PhyAction → Option Word
  | .write (.bytes selected) => some selected
  | _ => none

/-- The reset level after some actions. -/
def resetLevel (actions : List PhyAction) : Bool :=
  (actions.filterMap PhyAction.reset?).getLast?.getD false

/-- The bytes selected after some actions. -/
def selectedBytes (actions : List PhyAction) : Word :=
  (actions.filterMap PhyAction.bytes?).getLast?.getD 0

/-- What has happened since the last step. -/
def sinceStep (actions : List PhyAction) : List PhyAction :=
  actions.rtakeWhile fun action => !action.isStep

/-- A pulse has been fired since the last step. -/
def Pending (path : SlipPath) (pulse : SlipPulse) (actions : List PhyAction) : Prop :=
  .write (.fire path pulse) ∈ actions.rtakeWhile fun action => !action.isStep

instance (path : SlipPath) (pulse : SlipPulse) : DecidablePred (Pending path pulse) := fun _ =>
  inferInstanceAs (Decidable (_ ∈ _))

variable {p q : Phy} {actions : List PhyAction} {action : PhyAction} {phases : List Phase}
  {pads : PadInput} {path : SlipPath} {pulse : SlipPulse} {w : RegisterWrite}

theorem Phy.afterActions_append (p : Phy) (actions : List PhyAction) (action : PhyAction) :
    p.afterActions (actions ++ [action]) = p.afterActions actions >>= fun q => q.act action := by
  rw [Phy.afterActions, List.foldlM_append]
  simp [Phy.afterActions]

theorem CalibrationRegisters.afterActions_append (r : CalibrationRegisters)
    (actions : List PhyAction) (action : PhyAction) :
    r.afterActions (actions ++ [action]) = (r.afterActions actions).act action := by
  rw [CalibrationRegisters.afterActions, List.foldl_append]
  rfl

theorem cyclesFrom_append (r : CalibrationRegisters) (actions : List PhyAction) (action : PhyAction) :
    cyclesFrom r (actions ++ [action]) =
      cyclesFrom r actions ++ (action.cycle? (r.afterActions actions)).toList := by
  induction actions generalizing r with
  | nil => simp [cyclesFrom, CalibrationRegisters.afterActions]
  | cons first actions ih =>
    rw [List.cons_append, cyclesFrom, cyclesFrom, ih, List.append_assoc]
    rfl

theorem cyclesFrom_length (r : CalibrationRegisters) (actions : List PhyAction) :
    (cyclesFrom r actions).length = actions.countP PhyAction.isStep := by
  induction actions generalizing r with
  | nil => rfl
  | cons action actions ih =>
    rw [cyclesFrom, List.length_append, ih, List.countP_cons, Nat.add_comm]
    cases action <;> rfl

theorem cyclesFrom_wellFormed {databits : Nat} (h : ∀ a ∈ actions, a.WellFormed databits)
    (r : CalibrationRegisters) : ∀ i ∈ cyclesFrom r actions, i.WellFormed databits := by
  induction actions generalizing r with
  | nil => simp [cyclesFrom]
  | cons action actions ih =>
    intro i hi
    rcases List.mem_append.mp hi with hi | hi
    · have haction := h action List.mem_cons_self
      cases action with
      | write w => simp [PhyAction.cycle?] at hi
      | step phases pads =>
        obtain rfl : i = ⟨r, phases, pads⟩ := by simpa [PhyAction.cycle?] using hi
        exact haction
    · exact ih (fun a ha => h a (List.mem_cons_of_mem _ ha)) _ i hi

theorem Phy.step_registers {c : PhyCycle} (h : p.step phases pads = .ok c) :
    c.phy.registers = p.registers.consumed := by
  simp only [Phy.step, Phy.clockIn, bind_eq_ok, pure_eq_ok] at h
  obtain ⟨_, -, _, -, _, -, _, -, _, ⟨_, -, _, -, _, -, _, -, _, -, _, -, _, -, _, -, _, -, rfl⟩, rfl⟩ := h
  rfl

theorem Phy.act_eq_ok {r : CalibrationRegisters} : Phy.act { p with registers := r } action = .ok q ↔
    ∃ next, p.after (action.cycle? r).toList = .ok next ∧
      { next with registers := r.act action } = q := by
  cases action with
  | write w => simp [Phy.act, PhyAction.cycle?, Phy.after, CalibrationRegisters.act, pure_eq_ok]
  | step phases pads =>
    simp only [Phy.act, PhyAction.cycle?, Phy.after, Option.toList_some, List.foldlM_cons,
      List.foldlM_nil, bind_eq_ok, pure_eq_ok]
    constructor
    · rintro ⟨c, hc, rfl⟩
      refine ⟨c.phy, ⟨c.phy, ⟨c, hc, rfl⟩, rfl⟩, ?_⟩
      rw [CalibrationRegisters.act, ← Phy.step_registers hc]
    · rintro ⟨_, ⟨_, ⟨c, hc, rfl⟩, rfl⟩, rfl⟩
      refine ⟨c, hc, ?_⟩
      rw [CalibrationRegisters.act, ← Phy.step_registers hc]

/-- A run of actions is the run of the cycles that its steps make. -/
theorem Phy.afterActions_eq_ok : p.afterActions actions = .ok q ↔
    ∃ next, p.after (cyclesFrom p.registers actions) = .ok next ∧
      { next with registers := p.registers.afterActions actions } = q := by
  induction actions using List.reverseRecOn generalizing q with
  | nil => simp [Phy.afterActions, Phy.after, cyclesFrom, CalibrationRegisters.afterActions, pure_eq_ok]
  | append_singleton actions action ih =>
    rw [Phy.afterActions_append, bind_eq_ok, cyclesFrom_append, CalibrationRegisters.afterActions_append,
      Phy.after, List.foldlM_append]
    simp only [bind_eq_ok]
    constructor
    · rintro ⟨_, hactions, hact⟩
      obtain ⟨before, hbefore, rfl⟩ := ih.mp hactions
      obtain ⟨next, hnext, rfl⟩ := Phy.act_eq_ok.mp hact
      exact ⟨next, ⟨before, hbefore, hnext⟩, rfl⟩
    · rintro ⟨next, ⟨before, hbefore, hnext⟩, rfl⟩
      exact ⟨_, ih.mpr ⟨before, hbefore, rfl⟩, Phy.act_eq_ok.mpr ⟨next, hnext, rfl⟩⟩

theorem resetLevel_append : resetLevel (actions ++ [action]) =
    action.reset?.getD (resetLevel actions) := by
  rw [resetLevel, List.filterMap_append, List.getLast?_append]
  cases h : action.reset? <;> simp [h, resetLevel]

theorem selectedBytes_append : selectedBytes (actions ++ [action]) =
    action.bytes?.getD (selectedBytes actions) := by
  rw [selectedBytes, List.filterMap_append, List.getLast?_append]
  cases h : action.bytes? <;> simp [h, selectedBytes]

theorem sinceStep_append_write : sinceStep (actions ++ [.write w]) = sinceStep actions ++ [.write w] := by
  rw [sinceStep, List.rtakeWhile_concat_pos _ _ _ rfl]
  rfl

theorem sinceStep_append_step : sinceStep (actions ++ [.step phases pads]) = [] := by
  rw [sinceStep, List.rtakeWhile_concat_neg _ _ _ (by simp [PhyAction.isStep])]

theorem pending_append_write : Pending path pulse (actions ++ [.write w]) ↔
    Pending path pulse actions ∨ w = .fire path pulse := by
  change _ ∈ sinceStep _ ↔ _ ∈ sinceStep _ ∨ _
  rw [sinceStep_append_write, List.mem_append, List.mem_singleton, PhyAction.write.injEq,
    eq_comm (a := w)]

theorem not_pending_append_step : ¬ Pending path pulse (actions ++ [.step phases pads]) := by
  change _ ∉ sinceStep _
  rw [sinceStep_append_step]
  exact List.not_mem_nil

/-- The registers as the writes and steps before tell them. -/
structure CalibrationRegisters.ToldBy (r : CalibrationRegisters) (actions : List PhyAction) : Prop where
  reset : r.reset = resetLevel actions
  bytes : r.bytes = selectedBytes actions
  pending : ∀ path pulse, (r.pulses path).pending pulse = true ↔ Pending path pulse actions

theorem CalibrationRegisters.make_toldBy (rdPhase wrPhase : Nat) :
    (CalibrationRegisters.make rdPhase wrPhase).ToldBy [] := by
  refine ⟨rfl, rfl, fun path pulse => ?_⟩
  refine iff_of_false ?_ List.not_mem_nil
  cases path <;> cases pulse <;> exact Bool.false_ne_true

theorem SlipPulses.pending_fire (p : SlipPulses) (pulse other : SlipPulse) :
    (p.fire other).pending pulse = true ↔ p.pending pulse = true ∨ other = pulse := by
  cases pulse <;> cases other <;> simp [SlipPulses.fire, SlipPulses.pending]

theorem CalibrationRegisters.pending_put (r : CalibrationRegisters) (w : RegisterWrite) :
    ((r.put w).pulses path).pending pulse = true ↔
      (r.pulses path).pending pulse = true ∨ w = .fire path pulse := by
  cases w with
  | fire other fired =>
    cases other <;> cases path <;>
      simp [CalibrationRegisters.put, CalibrationRegisters.pulses, SlipPulses.pending_fire]
  | _ => cases path <;> simp [CalibrationRegisters.put, CalibrationRegisters.pulses]

theorem CalibrationRegisters.ToldBy.act {r : CalibrationRegisters} (h : r.ToldBy actions)
    (action : PhyAction) : (r.act action).ToldBy (actions ++ [action]) := by
  refine ⟨?_, ?_, fun path pulse => ?_⟩
  · rw [resetLevel_append, ← h.reset]
    rcases action with (_ | _ | _ | _ | _ | _ | ⟨_ | _, _⟩) | _ <;> rfl
  · rw [selectedBytes_append, ← h.bytes]
    rcases action with (_ | _ | _ | _ | _ | _ | ⟨_ | _, _⟩) | _ <;> rfl
  · cases action with
    | step phases pads =>
      refine iff_of_false ?_ not_pending_append_step
      cases path <;> cases pulse <;> exact Bool.false_ne_true
    | write w =>
      rw [pending_append_write, ← h.pending]
      exact r.pending_put w

theorem CalibrationRegisters.afterActions_toldBy {r : CalibrationRegisters} (h : r.ToldBy [])
    (actions : List PhyAction) : (r.afterActions actions).ToldBy actions := by
  induction actions using List.reverseRecOn with
  | nil => exact h
  | append_singleton actions action ih =>
    rw [CalibrationRegisters.afterActions_append]
    exact ih.act action

end DramPhy
