import DramPhy.Proofs.Phy.PulseCount
import DramPhy.Proofs.Timing.ExactResolution
import DramPhy.Proofs.Tool.ScriptedRun
import DramPhy.Tool.Simulation

/-! The verdict of the simulator on a looped burst. The burst is read back in one cycle that
the write latency tells, and never before, unless there is nothing in it. -/

namespace DramPhy

/-- The first cycle whose read data are the burst. A burst of zeros needs no write. -/
def returnCycle (timing : Timing) (burst : List Word) : Nat :=
  if burst.all (· == 0) then 0 else timing.writeLatency + 5

def SimulationOptions.run (o : SimulationOptions) (phy : Phy) (burst : List Word)
    (file : Option WaveformFile) : Bench (Option WaveformFile) × Option Fault :=
  Bench.run burst o.loopback (fun w out => Option.map (fun f => WaveformFile.record f out) w) o.cycles
    (Bench.start phy file)

/-- A run that goes through all its cycles, drops no command and tells the burst from all else. -/
structure LoopbackRun {σ : Type} (timing : Timing) (burst : List Word) (cycles : Nat)
    (run : Bench σ × Option Fault) : Prop where
  completes : run.2 = none ∧ run.1.cycle = cycles
  drops_none : run.1.phy.suppressed = 0 ∧ run.1.phy.arbiter.dropped = 0
  loopedBack : run.1.loopedBack =
    if returnCycle timing burst < cycles then some (returnCycle timing burst) else none
  notices : ∀ cycle, .loopedBack cycle ∈ run.1.notices ↔ run.1.loopedBack = some cycle

/-- The bench after some cycles of its script, with its pads looped back. -/
structure Bench.Follows {σ : Type} (b : Bench σ) (config : PhyConfig) (settings : Settings)
    (burst : List Word) (inputs : List CycleInput) : Prop where
  phy : b.phy.Follows config settings inputs
  calibrated : b.phy.Calibrated inputs
  registers : ∃ rdPhase wrPhase, b.phy.registers = CalibrationRegisters.make rdPhase wrPhase
  scripted : Scripted config.databits settings.timing burst inputs
  pads : b.pads.dq =
    writtenWords config.databits (script settings.timing burst (inputs.length - 2))
  cycle_eq : b.cycle = inputs.length
  loopedBack : b.loopedBack = if returnCycle settings.timing burst < inputs.length then
    some (returnCycle settings.timing burst) else none
  notices : ∀ cycle, .loopedBack cycle ∈ b.notices ↔ b.loopedBack = some cycle

/-- What the PHY of a bench meets in the next cycle. -/
def Bench.nextInput {σ : Type} (b : Bench σ) (timing : Timing) (burst : List Word) : CycleInput :=
  ⟨b.phy.registers, script timing burst b.cycle, b.pads⟩

variable {σ : Type} {b : Bench σ} {watch : σ → PadOutput → σ} {p : Phy} {config : PhyConfig}
  {settings : Settings} {timing : Timing} {burst : List Word} {inputs : List CycleInput} {t : Nat}

theorem Scriptable.reads_burst_iff (h : Scriptable timing burst) (t : Nat) :
    (script timing burst (t - 3)).map (·.wrdata) = burst ↔
      burst.all (· == 0) = true ∨ t = timing.writeLatency + 5 := by
  have hzero : burst.all (· == 0) = true ↔ List.replicate phasesPerCycle 0 = burst := by
    rw [@eq_comm _ _ burst, List.eq_replicate_iff, and_iff_right h.burst_length]
    simp
  rw [h.written]
  by_cases hdata : t - 3 = writeCycle + timing.writeLatency
  · rw [if_pos hdata]
    exact iff_of_true rfl (.inr (by simp only [writeCycle] at hdata; omega))
  · have ht : t ≠ timing.writeLatency + 5 := by
      simp only [writeCycle] at hdata
      omega
    rw [if_neg hdata, or_iff_left ht, hzero]

theorem Scriptable.first_read_iff (h : Scriptable timing burst) (t : Nat) :
    ¬ returnCycle timing burst < t ∧ (script timing burst (t - 3)).map (·.wrdata) = burst ↔
      t = returnCycle timing burst := by
  rw [h.reads_burst_iff]
  by_cases hzero : burst.all (· == 0) = true
  · have hreturn : returnCycle timing burst = 0 := if_pos hzero
    rw [hreturn, and_iff_left (.inl hzero)]
    omega
  · have hreturn : returnCycle timing burst = timing.writeLatency + 5 := if_neg hzero
    rw [hreturn, or_iff_right hzero]
    omega

theorem mem_cycleNotices {cycle c : Nat} {phases : List Phase} {found : Bool} {pads : PadOutput} :
    .loopedBack c ∈ cycleNotices cycle phases found pads ↔ found = true ∧ c = cycle := by
  rw [cycleNotices]
  split_ifs <;> simp_all

section

variable (h : b.Follows config settings burst inputs) (hs : Phy.Sound config settings)
  (hscript : Scriptable settings.timing burst)

include h

theorem Bench.Follows.nextInput_phases : (b.nextInput settings.timing burst).phases =
    script settings.timing burst inputs.length := by
  rw [Bench.nextInput, h.cycle_eq]

theorem Bench.Follows.nextInput_still (byte : Nat) : (b.nextInput settings.timing burst).Still byte := by
  -- the registers stay as they were made, which asks for no move
  obtain ⟨rdPhase, wrPhase, hregisters⟩ := h.registers
  rw [CycleInput.Still, CycleInput.writeMoved, CycleInput.readMoved, Bench.nextInput, hregisters]
  simp [CalibrationSample.moved, CalibrationRegisters.sample, CalibrationRegisters.make, SlipPulses.none]

theorem Bench.Follows.nextInput_wellFormed :
    (b.nextInput settings.timing burst).WellFormed config.databits := by
  constructor
  · rw [h.nextInput_phases, script_length]
  · rw [Bench.nextInput, h.pads, writtenWords_length]

include hscript

/-- The read data are taken for the burst just once. -/
theorem Bench.Follows.found_iff :
    (b.loopedBack.isNone && (script settings.timing burst (inputs.length - 3)).map (·.wrdata) == burst) =
      decide (inputs.length = returnCycle settings.timing burst) := by
  have hnone : b.loopedBack.isNone = true ↔ ¬ returnCycle settings.timing burst < inputs.length := by
    rw [h.loopedBack]
    split_ifs with hlate <;> simp [hlate]
  rw [Bool.eq_iff_iff, Bool.and_eq_true, beq_iff_eq, hnone, hscript.first_read_iff, decide_eq_true_eq]

theorem Bench.Follows.room (hroom : inputs.length + 1 < Count.limit) : b.phy.Room := by
  obtain ⟨hsuppressed, hdropped⟩ := h.scripted.arbiter_idle hscript h.phy
  refine ⟨?_, by rwa [h.phy.cycle_eq]⟩
  rw [hsuppressed, hdropped]
  decide

variable (hcut : ∀ word ∈ burst, word.cut (2 * config.databits) = word)

include hs hcut

theorem Bench.Follows.advance_eq (hroom : inputs.length + 1 < Count.limit) :
    b.advance burst true watch = .ok {
      phy := b.phy.next (b.nextInput settings.timing burst)
        (frameAfter settings.timing.writeTap inputs (b.nextInput settings.timing burst))
      pads := .loopback b.phy.pads
      cycle := inputs.length + 1
      loopedBack := if inputs.length = returnCycle settings.timing burst then some inputs.length
        else b.loopedBack
      notices := cycleNotices inputs.length (b.phy.returned (b.nextInput settings.timing burst))
        (decide (inputs.length = returnCycle settings.timing burst)) b.phy.pads ++ b.notices
      watched := watch b.watched b.phy.pads } := by
  have hstep := (h.phy.step_eq_ok hs rfl).mpr ⟨h.nextInput_wellFormed, h.room hscript hroom, rfl⟩
  have hread := h.scripted.returned_data h.phy h.calibrated hs h.nextInput_phases hcut
  have hfound := h.found_iff hscript
  rw [h.nextInput_phases, show (b.nextInput settings.timing burst).pads = b.pads from rfl] at hstep
  rw [Bench.advance, h.phy.settings_eq, h.cycle_eq, hscript.phases_ok, ok_bind, hstep, ok_bind]
  simp only [hread, hfound, decide_eq_true_eq, if_true]
  rfl

theorem Bench.Follows.advance (hroom : inputs.length + 1 < Count.limit) :
    ∃ next i, b.advance burst true watch = .ok next ∧
      next.Follows config settings burst (inputs ++ [i]) := by
  have hpads : (b.nextInput settings.timing burst).pads.dq = _ := h.pads
  refine ⟨_, b.nextInput settings.timing burst, h.advance_eq hs hscript hcut hroom, ?_⟩
  constructor
  case phy => exact h.phy.next h.nextInput_wellFormed (h.room hscript hroom)
  case calibrated => exact h.calibrated.next h.phy _ _
  case registers =>
    obtain ⟨rdPhase, wrPhase, hregisters⟩ := h.registers
    exact ⟨rdPhase, wrPhase, by rw [Phy.next, Bench.nextInput, hregisters]; rfl⟩
  case scripted => exact h.scripted.append h.nextInput_still h.nextInput_phases hpads
  case pads =>
    rw [List.length_append, List.length_singleton]
    exact h.scripted.looped_dq h.phy h.calibrated hscript
  case cycle_eq => simp
  case loopedBack =>
    rw [List.length_append, List.length_singleton, h.loopedBack]
    by_cases hfound : inputs.length = returnCycle settings.timing burst
    · simp [hfound]
    · have hpast : returnCycle settings.timing burst < inputs.length + 1 ↔
          returnCycle settings.timing burst < inputs.length := by omega
      simp [hfound, hpast]
  case notices =>
    intro cycle
    rw [List.mem_append, mem_cycleNotices, h.notices]
    by_cases hfound : inputs.length = returnCycle settings.timing burst
    · have hnone : b.loopedBack = none := by rw [h.loopedBack, if_neg (by omega)]
      simp [hfound, hnone, eq_comm]
    · simp [hfound]

end

theorem Bench.Follows.run (h : b.Follows config settings burst inputs)
    (hs : Phy.Sound config settings) (hscript : Scriptable settings.timing burst)
    (hcut : ∀ word ∈ burst, word.cut (2 * config.databits) = word) (n : Nat)
    (hroom : inputs.length + n < Count.limit) :
    ∃ last more, Bench.run burst true watch n b = (last, none) ∧ more.length = n ∧
      last.Follows config settings burst (inputs ++ more) := by
  induction n generalizing b inputs with
  | zero => exact ⟨b, [], rfl, rfl, by rwa [List.append_nil]⟩
  | succ n ih =>
    obtain ⟨next, i, hnext, hfollows⟩ := h.advance hs hscript hcut (by omega)
    obtain ⟨last, more, hrun, hlen, hlast⟩ := ih hfollows (by simp; omega)
    refine ⟨last, i :: more, ?_, by rw [List.length_cons, hlen], ?_⟩
    · rw [Bench.run, hnext]
      exact hrun
    · rwa [List.append_assoc, List.singleton_append] at hlast

theorem Bench.start_follows (h : Phy.build config .mt53e256m16d1 = .ok p) (burst : List Word)
    (watched : σ) : (Bench.start p watched).Follows config p.settings burst [] := by
  obtain ⟨-, -, hf, -⟩ := Phy.build_follows h
  constructor
  case phy => exact hf
  case calibrated => exact Phy.build_calibrated h
  case registers => exact Phy.build_make h
  case scripted => exact ⟨by simp, by simp, by simp⟩
  case pads =>
    rw [writtenWords_quiet (by simp only [writeCycle, List.length_nil]; omega)]
    change List.replicate p.config.databits 0 = _
    rw [hf.config_eq]
  case cycle_eq => rfl
  case loopedBack => rfl
  case notices => simp [Bench.start]

theorem Phy.build_scriptable (h : Phy.build config .mt53e256m16d1 = .ok p)
    (hticks : config.commandTicks < 2 ^ 60) (hser : config.serializer.Canonical)
    (hdes : config.deserializer.Canonical) (hlen : burst.length = phasesPerCycle) :
    Scriptable p.settings.timing burst := by
  obtain ⟨row, hrow, hresolved⟩ := resolveTiming_eq_ok.mp (settings_eq_ok (Phy.build_follows h).1).2
  have hsmall : row.cl < 2 ^ 60 ∧ row.cwl < 2 ^ 60 :=
    (show ∀ row ∈ CasTable.mt53e256m16d1, row.cl < 2 ^ 60 ∧ row.cwl < 2 ^ 60 by decide) row
      (CasTable.lookup_mem hrow)
  rw [← resolveRow_cl hresolved, ← resolveRow_cwl hresolved] at hsmall
  obtain ⟨hwrite, hlatency, hsum⟩ := Phy.build_write h hsmall.2 hticks
  obtain ⟨hread, -⟩ := Phy.build_read h hsmall.1 hticks hser hdes
  refine ⟨hwrite, hread, hlatency, ?_, hlen⟩
  simp only [writeCycle, phasesPerCycle, Count.limit] at *
  omega

theorem pairCells_length (n : Nat) {cells : List Cell} (h : cells.length = 2 * n) :
    (pairCells cells).length = n := by
  induction n generalizing cells with
  | zero =>
    obtain rfl := List.length_eq_zero_iff.mp h
    rfl
  | succ n ih =>
    rcases cells with _ | ⟨low, _ | ⟨high, cells⟩⟩
    · simp at h
    · simp only [List.length_cons, List.length_nil] at h
      omega
    · rw [pairCells, List.length_cons, ih (by simpa [Nat.mul_add_one] using h)]

theorem seededWords_length (seed : Nat) : (seededWords seed phasesPerCycle).length = phasesPerCycle := by
  rw [seededWords, List.length_take, pairCells_length 16]
  · rfl
  · simp [phasesPerCycle, Function.comp_def]

theorem simulateWith_code (o : SimulationOptions) (phy : Phy) (burst : List Word)
    (waveform : Option (String × WaveformFile)) : (simulateWith o phy burst waveform).code =
      runCode o.loopback (o.run phy burst (waveform.map (·.2))) := by
  rw [simulateWith]
  split_ifs <;> rfl

theorem Bench.Follows.loopbackRun (h : b.Follows config settings burst inputs)
    (hscript : Scriptable settings.timing burst) :
    LoopbackRun settings.timing burst inputs.length (b, none) :=
  ⟨⟨rfl, h.cycle_eq⟩, h.scripted.arbiter_idle hscript h.phy, h.loopedBack, h.notices⟩

theorem LoopbackRun.code_eq {cycles : Nat} {run : Bench σ × Option Fault}
    (h : LoopbackRun timing burst cycles run) :
    runCode true run = if returnCycle timing burst < cycles then 0 else 1 := by
  rw [runCode, h.completes.1, h.loopedBack]
  by_cases hreturn : returnCycle timing burst < cycles <;> simp [hreturn]

/-- The simulator's verdict on a looped burst is right. No command is dropped and no cycle
fails, the burst is found in the cycle that the write latency tells, and the program succeeds
if that cycle is among those that it has run. -/
theorem loopback_verdict {o : SimulationOptions} {phy : Phy}
    (h : Phy.build o.config .mt53e256m16d1 = .ok phy) (hloop : o.loopback = true)
    (hticks : o.commandTicks < 2 ^ 60) (hcycles : o.cycles < Count.limit) :
    (o.waveform = none → o.simulate = simulateWith o phy o.burst none) ∧
    (o.burst.length = phasesPerCycle ∧ ∀ word ∈ o.burst, word.cut (2 * o.databits) = word) ∧
    ∀ burst : List Word, burst.length = phasesPerCycle →
      (∀ word ∈ burst, word.cut (2 * o.databits) = word) → ∀ waveform,
      LoopbackRun phy.settings.timing burst o.cycles (o.run phy burst (waveform.map (·.2))) ∧
      (simulateWith o phy burst waveform).code =
        if returnCycle phy.settings.timing burst < o.cycles then 0 else 1 := by
  refine ⟨fun hwave => ?_, ⟨?_, ?_⟩, fun burst hlen hcut waveform => ?_⟩
  · simp only [SimulationOptions.simulate, h, hwave]
  · rw [SimulationOptions.burst, List.length_map, seededWords_length]
  · simp [SimulationOptions.burst, Word.cut_cut]
  obtain ⟨-, hs, -, -⟩ := Phy.build_follows h
  have hzero : (Latency.zero phasesPerCycle).Canonical := by decide
  have hscript := Phy.build_scriptable h hticks hzero hzero hlen
  have hstart := Bench.start_follows h burst (waveform.map (·.2))
  obtain ⟨last, inputs, hrun, hcount, hlast⟩ := hstart.run hs hscript hcut o.cycles (by simpa using hcycles)
  have hloops : LoopbackRun phy.settings.timing burst o.cycles (o.run phy burst (waveform.map (·.2))) := by
    rw [SimulationOptions.run, hloop, hrun, ← hcount]
    exact hlast.loopbackRun hscript
  refine ⟨hloops, ?_⟩
  rw [simulateWith_code, hloop, hloops.code_eq]

def loopbackOptions (cycles : Nat) : SimulationOptions :=
  ⟨100000000, 16, cycles, defaultCommandTicks, true, true, true, 0, none⟩

def countedBurst : List Word := [1, 2, 3, 4, 5, 6, 7, 0xffffffff]

/-- The burst is back in cycle 7, for which seven cycles are not enough. -/
theorem burst_back_in_cycle_seven :
    ∃ phy, Phy.build (loopbackOptions 8).config .mt53e256m16d1 = .ok phy ∧
      (simulateWith (loopbackOptions 8) phy countedBurst none).code = 0 ∧
      (simulateWith (loopbackOptions 7) phy countedBurst none).code = 1 := by
  obtain ⟨phy, hphy, hlatency⟩ : ∃ phy, Phy.build (loopbackOptions 8).config .mt53e256m16d1 = .ok phy ∧
      phy.settings.timing.writeLatency = 2 := by decide +kernel
  have hreturn : returnCycle phy.settings.timing countedBurst = 7 := by
    rw [returnCycle, if_neg (by decide), hlatency]
  have hcut : ∀ cycles, ∀ word ∈ countedBurst, word.cut (2 * (loopbackOptions cycles).databits) = word := by
    simp [loopbackOptions, countedBurst, Word.cut, lowMask]
  obtain ⟨-, -, hlong⟩ := loopback_verdict hphy rfl (by decide) (by decide)
  obtain ⟨-, -, hshort⟩ := loopback_verdict (show Phy.build (loopbackOptions 7).config _ = .ok phy from hphy)
    rfl (by decide) (by decide)
  refine ⟨phy, hphy, ?_, ?_⟩
  · rw [(hlong countedBurst rfl (hcut 8) none).2, hreturn]
    rfl
  · rw [(hshort countedBurst rfl (hcut 7) none).2, hreturn]
    rfl

end DramPhy
