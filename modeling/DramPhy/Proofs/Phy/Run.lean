import DramPhy.Proofs.Phy.History
import DramPhy.Proofs.Timing.Access

/-! Runs of a PHY from its initial state. A PHY that could be built completes every
run of well-formed cycles that is short enough to be counted. -/

namespace DramPhy

/-- The PHY once it has gone through the cycles of a run. -/
def Phy.after (p : Phy) (inputs : List CycleInput) : Checked Phy :=
  inputs.foldlM (fun q i => do
    let c ← q.cycleOn i
    return c.phy) p

/-- Cycle `t` of a run. -/
def Phy.cycleAt (p : Phy) (inputs : List CycleInput) (t : Nat) : Checked PhyCycle := do
  let q ← p.after (inputs.take t)
  let i ← entry inputs t
  q.cycleOn i

variable {p q : Phy} {config : PhyConfig} {table : CasTable} {settings : Settings}
  {inputs more : List CycleInput} {i : CycleInput} {c : PhyCycle} {t : Nat}

theorem validate_eq_ok {u : Unit} : config.validate = .ok u ↔
    config.databits ≠ 0 ∧ config.databits % 8 = 0 ∧ config.databits ≤ maxDatabits := by
  by_cases h : config.databits ≠ 0 ∧ config.databits % 8 = 0 ∧ config.databits ≤ maxDatabits <;>
    simp [PhyConfig.validate, h]

theorem settings_eq_ok (h : config.settings table = .ok settings) :
    config.databits ≤ maxDatabits ∧ resolveTiming table config.timingRequest = .ok settings.timing := by
  simp only [PhyConfig.settings, bind_eq_ok, pure_eq_ok] at h
  obtain ⟨_, hvalid, timing, htiming, rfl⟩ := h
  cases hv : config.validate with
  | error e => simp [hv, Except.mapError] at hvalid
  | ok _ => exact ⟨(validate_eq_ok.mp hv).2.2, htiming⟩

theorem Phy.initial_ok (config : PhyConfig) (hpos : 1 ≤ settings.timing.readLatency)
    (htap : (settings.timing.writeTap : Int) + 1 < Offset.limit) :
    ∃ p, Phy.initial config settings = .ok p ∧ p.Follows config settings [] ∧
      p.arbiter.suppressed = 0 := by
  obtain ⟨arbiter, harbiter, -, hsuppressed⟩ := Arbiter.make_follows config.overlapMasking
    (show lookback ≤ phasesPerCycle by decide) (by decide)
  obtain ⟨dq, hdq, hdqf⟩ := LaneBank.make_follows (dqBytes config.databits)
  obtain ⟨dqs, hdqs, hdqsf⟩ := LaneBank.make_follows (List.range config.bytes)
  obtain ⟨dmi, hdmi, hdmif⟩ := LaneBank.make_follows
    (if config.maskedWrite then List.range config.bytes else [])
  have hframing : WriteFraming.make settings.timing.writeTap =
      .ok (WriteFraming.fed settings.timing.writeTap []) :=
    WriteFraming.make_ok (by simp only [Offset.limit, Count.limit] at *; omega)
  have hrun : Arbiter.after phasesPerCycle config.overlapMasking [] = .ok arbiter := by
    rw [Arbiter.after, harbiter]
    rfl
  simp only [Phy.initial, harbiter, hdq, hdqs, hdmi, hframing, DelayLine.make_ok (Nat.le_refl 1),
    DelayLine.make_ok hpos, ok_bind, pure_eq_ok, exists_eq_left']
  exact ⟨⟨rfl, rfl, hrun, rfl, rfl, rfl, hdqf, hdqf, hdqsf, hdmif, rfl, rfl, rfl, rfl, rfl⟩, hsuppressed⟩

theorem Phy.initial_follows (hd : config.databits ≤ maxDatabits)
    (htap : (settings.timing.writeTap : Int) + 1 < Offset.limit)
    (h : Phy.initial config settings = .ok p) :
    Phy.Sound config settings ∧ p.Follows config settings [] ∧ p.arbiter.suppressed = 0 := by
  have hpos : 1 ≤ settings.timing.readLatency := by
    simp only [Phy.initial, bind_eq_ok, DelayLine.make_eq_ok] at h
    obtain ⟨_, -, _, -, _, -, _, -, _, -, _, ⟨hpos, -⟩, -⟩ := h
    exact hpos
  obtain ⟨_, hinitial, hfollows⟩ := Phy.initial_ok config hpos htap
  rw [Except.ok.inj (h.symm.trans hinitial)]
  exact ⟨⟨hd, hpos, htap⟩, hfollows⟩

theorem Phy.build_follows (h : Phy.build config table = .ok p) :
    config.settings table = .ok p.settings ∧ Phy.Sound config p.settings ∧
      p.Follows config p.settings [] ∧ p.arbiter.suppressed = 0 := by
  simp only [Phy.build, bind_eq_ok, build_eq_ok] at h
  obtain ⟨settings, hsettings, hinitial⟩ := h
  obtain ⟨hd, htiming⟩ := settings_eq_ok hsettings
  obtain ⟨row, -, hrow⟩ := resolveTiming_eq_ok.mp htiming
  obtain ⟨hs, hf, hsuppressed⟩ := Phy.initial_follows hd (resolveRow_tap hrow) hinitial
  rw [hf.settings_eq]
  exact ⟨hsettings, hs, hf, hsuppressed⟩

theorem Phy.after_append : p.after (inputs ++ [i]) =
    p.after inputs >>= fun q => (do
      let c ← q.cycleOn i
      return c.phy) := by
  simp [Phy.after]

theorem Phy.after_follows (hs : Phy.Sound config settings) (hp : p.Follows config settings [])
    (h : p.after inputs = .ok q) :
    q.Follows config settings inputs ∧ ∀ i ∈ inputs, i.WellFormed config.databits := by
  induction inputs using List.reverseRecOn generalizing q with
  | nil =>
    simp only [Phy.after, List.foldlM_nil, pure_eq_ok] at h
    subst h
    exact ⟨hp, by simp⟩
  | append_singleton inputs i ih =>
    simp only [Phy.after_append, bind_eq_ok, pure_eq_ok] at h
    obtain ⟨r, hr, c, hc, rfl⟩ := h
    obtain ⟨hf, hall⟩ := ih hr
    obtain ⟨hi, hroom, rfl⟩ := (hf.cycleOn_eq_ok hs).mp hc
    refine ⟨hf.next hi hroom, ?_⟩
    intro j hj
    rcases List.mem_append.mp hj with hj | hj
    · exact hall j hj
    · rwa [List.mem_singleton.mp hj]

theorem Phy.after_take (h : p.after inputs = .ok q) (ht : t < inputs.length) :
    ∃ before c, p.after (inputs.take t) = .ok before ∧ before.cycleOn inputs[t] = .ok c ∧
      p.cycleAt inputs t = .ok c := by
  obtain ⟨before, _, hbefore, hstep⟩ := foldlM_take h ht
  simp only [bind_eq_ok] at hstep
  obtain ⟨c, hc, -⟩ := hstep
  refine ⟨before, c, hbefore, hc, ?_⟩
  have hentry : entry inputs t = .ok inputs[t] := entry_eq_ok.mpr (List.getElem?_eq_getElem ht)
  rw [Phy.cycleAt, show p.after (inputs.take t) = .ok before from hbefore, ok_bind, hentry, ok_bind, hc]

theorem Phy.cycleAt_append (p : Phy) (more : List CycleInput) (h : t < inputs.length) :
    p.cycleAt (inputs ++ more) t = p.cycleAt inputs t := by
  rw [Phy.cycleAt, Phy.cycleAt, List.take_append_of_le_length (Nat.le_of_lt h), entry, entry,
    List.getElem?_append_left h]

/-- A run of well-formed cycles fails only when it is too long to be counted. -/
theorem Phy.after_ok (hs : Phy.Sound config settings) (hp : p.Follows config settings [])
    (hsuppressed : p.arbiter.suppressed = 0) (hwf : ∀ i ∈ inputs, i.WellFormed config.databits)
    (hlen : phasesPerCycle * inputs.length < Count.limit) :
    ∃ q, p.after inputs = .ok q ∧ q.arbiter.suppressed ≤ phasesPerCycle * inputs.length := by
  induction inputs using List.reverseRecOn with
  | nil => exact ⟨p, rfl, by omega⟩
  | append_singleton inputs i ih =>
    rw [List.length_append, List.length_singleton, Nat.mul_add_one phasesPerCycle inputs.length] at hlen ⊢
    obtain ⟨q, hq, hcount⟩ := ih (fun j hj => hwf j (List.mem_append_left _ hj)) (by omega)
    obtain ⟨hf, -⟩ := Phy.after_follows hs hp hq
    have hones : q.arbiter.dropped.ones ≤ phasesPerCycle := Word.ones_le fun _ => hf.arbiter_follows.dropped_lt
    have hroom : q.Room := by
      refine ⟨by omega, ?_⟩
      rw [hf.cycle_eq]
      simp only [phasesPerCycle] at hlen
      omega
    have hcycle := (hf.cycleOn_eq_ok hs).mpr ⟨hwf i (by simp), hroom, rfl⟩
    refine ⟨q.next i (frameAfter settings.timing.writeTap inputs i), ?_, ?_⟩
    · rw [Phy.after_append, hq, ok_bind, hcycle]
      rfl
    · simp only [Phy.next, Arbiter.next]
      omega

/-- A run goes on with any well-formed cycles. -/
theorem Phy.after_extend (hs : Phy.Sound config settings) (hp : p.Follows config settings [])
    (hsuppressed : p.arbiter.suppressed = 0) (hq : p.after inputs = .ok q)
    (hmore : ∀ i ∈ more, i.WellFormed config.databits)
    (hlen : phasesPerCycle * (inputs.length + more.length) < Count.limit) :
    ∃ r, p.after (inputs ++ more) = .ok r := by
  have hwf : ∀ i ∈ inputs ++ more, i.WellFormed config.databits := by
    intro i hi
    rcases List.mem_append.mp hi with hi | hi
    · exact (Phy.after_follows hs hp hq).2 i hi
    · exact hmore i hi
  obtain ⟨r, hr, -⟩ := Phy.after_ok hs hp hsuppressed hwf (by rwa [List.length_append])
  exact ⟨r, hr⟩

end DramPhy
