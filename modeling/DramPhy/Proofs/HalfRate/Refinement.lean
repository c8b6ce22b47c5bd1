import DramPhy.Proofs.Command.BusSlots
import DramPhy.Proofs.HalfRate.StageHistory
import DramPhy.Proofs.Phy.Run

/-! A PHY behind a 2:1 stage is the PHY inside it, run on later pads. Every cycle of
the one is a cycle of the other, with the same registers and the same read data; what
the PHY inside drives is on the pads a cycle later, in two halves. -/

namespace DramPhy

def HalfRatePhy.cycleOn (p : HalfRatePhy) (i : HalfRateInput) : Checked HalfRateCycle :=
  { p with inner := { p.inner with registers := i.registers } }.step i.phases i.pads

def HalfRatePhy.after (p : HalfRatePhy) (inputs : List HalfRateInput) : Checked HalfRatePhy :=
  inputs.foldlM (fun q i => do
    let c ← q.cycleOn i
    return c.phy) p

def HalfRatePhy.cycleAt (p : HalfRatePhy) (inputs : List HalfRateInput) (t : Nat) :
    Checked HalfRateCycle := do
  let q ← p.after (inputs.take t)
  let i ← entry inputs t
  q.cycleOn i

/-- What a PHY that is run beside a half-rate one is given: the same registers and
phases, and the joined samples of two cycles before. -/
def besideInputs (config : PhyConfig) (inputs : List HalfRateInput) : List CycleInput :=
  inputs.zipWith (fun i pads => ⟨i.registers, i.phases, pads⟩)
    (PadInput.resting config :: PadInput.resting config :: inputs.map (·.joined config.databits))

/-- What was driven in the cycle before, `first` before the first cycle. -/
def Phy.outputBefore (p : Phy) (inputs : List CycleInput) (first : PadOutput) : Nat → Checked PadOutput
  | 0 => .ok first
  | t + 1 => do
    let c ← p.cycleAt inputs t
    return c.pads

variable {p r : Phy} {q start : HalfRatePhy} {config : PhyConfig} {table : CasTable} {settings : Settings}
  {inputs : List HalfRateInput} {i : HalfRateInput} {c : PhyCycle} {cycle : HalfRateCycle} {t : Nat}

theorem flagWord_cut {phases : List Phase} (hl : phases.length = phasesPerCycle) (flag : Phase → Bool) :
    (flagWord phases flag).cut phasesPerCycle = flagWord phases flag := by
  refine Word.cut_eq_self fun j hj => ?_
  rw [flagWord, Word.getLsbD_ofBits, hl, Bool.and_eq_true, Bool.and_eq_true] at hj
  exact of_decide_eq_true hj.1.1

section

variable {run : List CycleInput} (h : p.Follows config settings run)

include h

theorem Phy.Follows.bus_cut (pin : CommandPin) :
    (p.arbiter.bus.word pin).cut phasesPerCycle = p.arbiter.bus.word pin :=
  Word.cut_eq_self fun j hj => ((h.arbiter_follows.bus_getLsbD (by decide) pin j).mp hj).1

theorem Phy.Follows.pads_lanes :
    p.pads.lanes = (PadOutput.blank halfPhases config.databits).lanes := by
  simp [PadOutput.lanes, PadOutput.blank, h.pads_dmi_length, h.pads_dq_length, h.pads_dqs_length,
    PhyConfig.bytes]

/-- Nothing that a PHY drives is lost in halves. -/
theorem Phy.Follows.pads_fit (hwf : ∀ i ∈ run, i.WellFormed config.databits) :
    p.pads.Fits config.databits := by
  have hline : ∀ {line : DelayLine Word} {flag : Phase → Bool},
      line = DelayLine.fed 1 0 (run.map fun i => flagWord i.phases flag) →
      Word.cut (line.held 0) phasesPerCycle = line.held 0 := by
    intro line flag hfed
    rw [hfed, DelayLine.fed_held (by decide), ago, ← List.map_reverse, List.getElem?_map]
    cases hlast : run.reverse[0]? with
    | none =>
      change Word.cut 0 phasesPerCycle = 0
      decide
    | some i => exact flagWord_cut (hwf i (List.mem_reverse.mp (List.mem_of_getElem? hlast))).1 flag
  have hmask : ∀ word ∈ p.pads.dmi, word.cut laneBits = word := by
    intro word hm
    simp only [Phy.pads] at hm
    split_ifs at hm
    · exact h.dmiWrite.windows_cut hm
    · rw [List.eq_of_mem_replicate hm]
      decide
  refine ⟨h.pads_lanes, fun lane hm => ?_⟩
  have hlane := PadOutput.lane_word hm
  cases lane with
  | clk =>
    change clockWord.cut laneBits = clockWord
    decide
  | cke => exact hline h.cke
  | odt => exact hline h.odt
  | resetN => exact hline h.resetN
  | cs => exact h.bus_cut .cs
  | ca k =>
    have hword : p.arbiter.bus.ca.toList[k]? = some (p.pads.word (.ca k)) := entry_eq_ok.mp hlane
    obtain ⟨hk, hget⟩ := List.getElem?_eq_some_iff.mp hword
    rw [← hget, Vector.getElem_toList]
    exact h.bus_cut (.ca ⟨k, by simpa using hk⟩)
  | dmi k => exact hmask _ (List.mem_of_getElem? (entry_eq_ok.mp hlane))
  | dq k => exact h.dqWrite.windows_cut (List.mem_of_getElem? (entry_eq_ok.mp hlane))
  | dqs k => exact h.dqsWrite.windows_cut (List.mem_of_getElem? (entry_eq_ok.mp hlane))

end

theorem late_getElem? {α : Type} (rest : α) {xs : List α} (ht : t ≤ xs.length) :
    (rest :: rest :: xs)[t]? = some (ago rest (xs.take t) 1) := by
  rw [ago_take ht]
  match t, ht with
  | 0, _ => rfl
  | 1, _ => rfl
  | u + 2, ht => simp [List.getElem?_eq_getElem (show u < xs.length by omega)]

def besideInput (config : PhyConfig) (inputs : List HalfRateInput) (i : HalfRateInput) : CycleInput :=
  ⟨i.registers, i.phases, ago (PadInput.resting config) (inputs.map (·.joined config.databits)) 1⟩

theorem besideInputs_getElem? (config : PhyConfig) (inputs : List HalfRateInput) (t : Nat) :
    (besideInputs config inputs)[t]? = inputs[t]?.map (besideInput config (inputs.take t)) := by
  rw [besideInputs, List.getElem?_zipWith]
  cases hi : inputs[t]? with
  | none => rfl
  | some i =>
    have hlt : t < inputs.length := (List.getElem?_eq_some_iff.mp hi).1
    rw [late_getElem? (PadInput.resting config) (by rw [List.length_map]; omega), ← List.map_take]
    rfl

theorem besideInputs_length (config : PhyConfig) (inputs : List HalfRateInput) :
    (besideInputs config inputs).length = inputs.length := by
  rw [besideInputs, List.length_zipWith, List.length_cons, List.length_cons, List.length_map]
  omega

theorem besideInputs_take (config : PhyConfig) (inputs : List HalfRateInput) (t : Nat) :
    (besideInputs config inputs).take t = besideInputs config (inputs.take t) := by
  apply List.ext_getElem?
  intro k
  rw [List.getElem?_take, besideInputs_getElem?, besideInputs_getElem?, List.getElem?_take]
  split_ifs with hk
  · rw [List.take_take, Nat.min_eq_left (Nat.le_of_lt hk)]
  · rfl

theorem besideInputs_append (config : PhyConfig) (inputs : List HalfRateInput) (i : HalfRateInput) :
    besideInputs config (inputs ++ [i]) =
      besideInputs config inputs ++ [besideInput config inputs i] := by
  apply List.ext_getElem?
  intro k
  have hlen := besideInputs_length config inputs
  rcases Nat.lt_trichotomy k inputs.length with hk | rfl | hk
  · rw [besideInputs_getElem?, List.getElem?_append_left hk, List.getElem?_append_left (by omega),
      besideInputs_getElem?, List.take_append_of_le_length (Nat.le_of_lt hk)]
  · rw [besideInputs_getElem?, List.getElem?_concat_length, List.take_left,
      List.getElem?_append_right (Nat.le_of_eq hlen), hlen, Nat.sub_self]
    rfl
  · rw [List.getElem?_eq_none (by simp [besideInputs_length]; omega),
      List.getElem?_eq_none (by simp [hlen]; omega)]

theorem besideInputs_wellFormed (hl : ∀ i ∈ inputs, i.phases.length = phasesPerCycle) :
    ∀ x ∈ besideInputs config inputs, x.WellFormed config.databits := by
  intro x hx
  obtain ⟨t, hx⟩ := List.mem_iff_getElem?.mp hx
  rw [besideInputs_getElem?] at hx
  obtain ⟨i, hi, rfl⟩ := Option.map_eq_some_iff.mp hx
  refine ⟨hl i (List.mem_of_getElem? hi), ?_⟩
  rw [besideInput, ago_joined]
  simp [PadInput.ofLanes]

theorem Phy.outputBefore_take {run : List CycleInput} (p : Phy) (first : PadOutput)
    (ht : t ≤ run.length) : p.outputBefore (run.take t) first t = p.outputBefore run first t := by
  cases t with
  | zero => rfl
  | succ u =>
    have hlt : u < (run.take (u + 1)).length := by
      rw [List.length_take]
      omega
    rw [Phy.outputBefore, Phy.outputBefore, ← Phy.cycleAt_append p (run.drop (u + 1)) hlt,
      List.take_append_drop]

/-- The half-rate PHY has gone through a run as the PHY beside it has. -/
structure HalfRatePhy.Tracks (q : HalfRatePhy) (p : Phy) (config : PhyConfig)
    (inputs : List HalfRateInput) : Prop where
  inner : p.after (besideInputs config inputs) = .ok q.inner
  stage : ∃ before, p.outputBefore (besideInputs config inputs) (PadOutput.resting config)
    inputs.length = .ok before ∧ q.Follows config inputs before

theorem HalfRatePhy.Follows.cycleOn_inner {before : PadOutput} (h : q.Follows config inputs before)
    (hcycle : q.cycleOn i = .ok cycle) : ∃ c, q.inner.cycleOn (besideInput config inputs i) = .ok c := by
  have hreceived : HalfRatePhy.received { q with inner := { q.inner with registers := i.registers } } =
      .ok (besideInput config inputs i).pads := h.received_ok
  simp only [HalfRatePhy.cycleOn, HalfRatePhy.step, hreceived, ok_bind, bind_eq_ok] at hcycle
  obtain ⟨c, hinner, -⟩ := hcycle
  exact ⟨c, hinner⟩

theorem HalfRatePhy.Tracks.next {before : PadOutput} (h : q.Tracks p config inputs)
    (hp : Phy.build config table = .ok p)
    (hbefore : p.outputBefore (besideInputs config inputs) (PadOutput.resting config)
      inputs.length = .ok before)
    (hcycle : q.inner.cycleOn (besideInput config inputs i) = .ok c) :
    ∃ cycle, q.cycleOn i = .ok cycle ∧ cycle.phases = c.phases ∧ cycle.phy.inner = c.phy ∧
      before.SplitsInto cycle.pads ∧ cycle.phy.Tracks p config (inputs ++ [i]) := by
  obtain ⟨_, hbefore', hstage⟩ := h.stage
  rw [Except.ok.inj (hbefore'.symm.trans hbefore)] at hstage
  obtain ⟨-, hs, hf, -⟩ := Phy.build_follows hp
  obtain ⟨hfollows, hwf⟩ := Phy.after_follows hs hf h.inner
  obtain ⟨-, -, hclosed⟩ := (hfollows.cycleOn_eq_ok hs).mp hcycle
  have hfits : c.pads.Fits config.databits := by
    rw [hclosed]
    exact hfollows.pads_fit hwf
  have hconfig : c.phy.config.databits = config.databits := by
    rw [hclosed]
    exact congrArg PhyConfig.databits hfollows.config_eq
  have hstage' : HalfRatePhy.Follows { q with inner := { q.inner with registers := i.registers } }
      config inputs before :=
    ⟨hstage.databits_eq, hstage.serializers, hstage.deserializers, hstage.dmiOe, hstage.dqOe,
      hstage.dqsOe, hstage.fits⟩
  obtain ⟨cycle, hstep, hinner, hphases, hsplits, hnext⟩ := hstage'.step_ok hcycle hconfig hfits
  refine ⟨cycle, hstep, hphases, hinner, hsplits, ?_, c.pads, ?_, hnext⟩
  · rw [besideInputs_append, Phy.after_append, h.inner, ok_bind, hcycle, ok_bind, hinner]
    rfl
  · have hentry : entry (besideInputs config inputs ++ [besideInput config inputs i]) inputs.length =
        .ok (besideInput config inputs i) := by
      rw [entry_eq_ok, ← besideInputs_length config inputs, List.getElem?_concat_length]
    rw [List.length_append, List.length_singleton, Phy.outputBefore, besideInputs_append, Phy.cycleAt,
      List.take_left' (besideInputs_length config inputs), h.inner, ok_bind, hentry, ok_bind, hcycle]
    rfl

theorem HalfRatePhy.after_append : start.after (inputs ++ [i]) =
    start.after inputs >>= fun q => (do
      let c ← q.cycleOn i
      return c.phy) := by
  simp [HalfRatePhy.after]

theorem HalfRatePhy.after_take (h : start.after inputs = .ok q) (ht : t < inputs.length) :
    ∃ before c, start.after (inputs.take t) = .ok before ∧ before.cycleOn inputs[t] = .ok c ∧
      start.cycleAt inputs t = .ok c := by
  obtain ⟨before, _, hbefore, hstep⟩ := foldlM_take h ht
  simp only [bind_eq_ok] at hstep
  obtain ⟨c, hc, -⟩ := hstep
  refine ⟨before, c, hbefore, hc, ?_⟩
  have hentry : entry inputs t = .ok inputs[t] := entry_eq_ok.mpr (List.getElem?_eq_getElem ht)
  rw [HalfRatePhy.cycleAt, show start.after (inputs.take t) = .ok before from hbefore, ok_bind, hentry,
    ok_bind, hc]

section

variable (hp : Phy.build config table = .ok p) (hstart : start.Tracks p config [])

include hp hstart

theorem HalfRatePhy.after_tracks (h : start.after inputs = .ok q) : q.Tracks p config inputs := by
  induction inputs using List.reverseRecOn generalizing q with
  | nil =>
    rw [HalfRatePhy.after, List.foldlM_nil, pure_eq_ok] at h
    rwa [← h]
  | append_singleton inputs i ih =>
    simp only [HalfRatePhy.after_append, bind_eq_ok, pure_eq_ok] at h
    obtain ⟨q', hq', cycle, hcycle, rfl⟩ := h
    have htracks := ih hq'
    obtain ⟨before, hbefore, hstage⟩ := htracks.stage
    obtain ⟨c, hinner⟩ := hstage.cycleOn_inner hcycle
    obtain ⟨_, hcycle', -, -, -, hnext⟩ := htracks.next hp hbefore hinner
    rwa [Except.ok.inj (hcycle.symm.trans hcycle')]

theorem HalfRatePhy.after_ok (h : p.after (besideInputs config inputs) = .ok r) :
    ∃ q, start.after inputs = .ok q ∧ q.inner = r := by
  induction inputs using List.reverseRecOn generalizing r with
  | nil => exact ⟨start, rfl, Except.ok.inj (hstart.inner.symm.trans h)⟩
  | append_singleton inputs i ih =>
    simp only [besideInputs_append, Phy.after_append, bind_eq_ok, pure_eq_ok] at h
    obtain ⟨r', hr', c, hinner, rfl⟩ := h
    obtain ⟨q', hq', rfl⟩ := ih hr'
    have htracks := HalfRatePhy.after_tracks hp hstart hq'
    obtain ⟨before, hbefore, -⟩ := htracks.stage
    obtain ⟨cycle, hcycle, -, hphy, -⟩ := htracks.next hp hbefore hinner
    refine ⟨cycle.phy, ?_, hphy⟩
    rw [HalfRatePhy.after_append, hq', ok_bind, hcycle]
    rfl

theorem HalfRatePhy.after_complete (hl : ∀ i ∈ inputs, i.phases.length = phasesPerCycle)
    (hlen : phasesPerCycle * inputs.length < Count.limit) : ∃ q, start.after inputs = .ok q := by
  obtain ⟨-, hs, hf, hsuppressed⟩ := Phy.build_follows hp
  obtain ⟨r, hr, -⟩ := Phy.after_ok hs hf hsuppressed (besideInputs_wellFormed hl)
    (by rwa [besideInputs_length])
  obtain ⟨q, hq, -⟩ := HalfRatePhy.after_ok hp hstart hr
  exact ⟨q, hq⟩

/-- Cycle `t` of a half-rate run beside the one of the PHY inside it. -/
theorem HalfRatePhy.cycleAt_tracks (h : start.after inputs = .ok q) (ht : t < inputs.length) :
    ∃ half cycle c before, start.after (inputs.take t) = .ok half ∧ start.cycleAt inputs t = .ok cycle ∧
      p.after ((besideInputs config inputs).take t) = .ok half.inner ∧
      p.cycleAt (besideInputs config inputs) t = .ok c ∧
      p.outputBefore (besideInputs config inputs) (PadOutput.resting config) t = .ok before ∧
      cycle.phases = c.phases ∧ before.Fits config.databits ∧ before.SplitsInto cycle.pads := by
  obtain ⟨half, cycle, hhalf, hcycle, hat⟩ := HalfRatePhy.after_take h ht
  have htracks := HalfRatePhy.after_tracks hp hstart hhalf
  obtain ⟨before, hbefore, hstage⟩ := htracks.stage
  obtain ⟨c, hinner⟩ := hstage.cycleOn_inner hcycle
  obtain ⟨_, hcycle', hphases, -, hsplits, -⟩ := htracks.next hp hbefore hinner
  obtain rfl := Except.ok.inj (hcycle.symm.trans hcycle')
  have hafter := htracks.inner
  rw [← besideInputs_take] at hafter hbefore
  rw [List.length_take, Nat.min_eq_left (Nat.le_of_lt ht),
    Phy.outputBefore_take _ _ (by rw [besideInputs_length]; omega)] at hbefore
  have hentry : entry (besideInputs config inputs) t =
      .ok (besideInput config (inputs.take t) inputs[t]) := by
    rw [entry_eq_ok, besideInputs_getElem?, List.getElem?_eq_getElem ht, Option.map_some]
  refine ⟨half, cycle, c, before, hhalf, hat, hafter, ?_, hbefore, hphases, hstage.fits, hsplits⟩
  rw [Phy.cycleAt, hafter, ok_bind, hentry, ok_bind, hinner]

end

theorem HalfRatePhy.build_tracks (h : HalfRatePhy.build config table = .ok start) :
    ∃ serializer deserializer p, config.serializer.add ⟨1, 0⟩ = .ok serializer ∧
      config.deserializer.add ⟨2, 0⟩ = .ok deserializer ∧
      Phy.build { config with serializer, deserializer } table = .ok p ∧
      start.Tracks p { config with serializer, deserializer } [] := by
  simp only [HalfRatePhy.build, bind_eq_ok, build_eq_ok, PhyConfig.behindStage, pure_eq_ok] at h
  obtain ⟨_, ⟨sent, hsent, serializer, hserializer, got, hgot, deserializer, hdeserializer, rfl⟩, inner,
    hinner, haround⟩ := h
  obtain rfl : ⟨1, 0⟩ = sent := Except.ok.inj hsent
  obtain rfl : ⟨2, 0⟩ = got := Except.ok.inj hgot
  obtain ⟨-, -, hfollows, -⟩ := Phy.build_follows hinner
  obtain ⟨rfl, hstage⟩ := HalfRatePhy.around_follows haround
  rw [hfollows.config_eq] at hstage
  exact ⟨serializer, deserializer, _, hserializer, hdeserializer, hinner, rfl, _, rfl, hstage⟩

/-- A PHY behind a 2:1 stage is, in every run, the PHY of the longer latencies run
beside it: it completes the same runs, its registers and the read data are the same in
every cycle, and its pads show what the other one drove a cycle before. -/
theorem half_rate_refines (inputs : List HalfRateInput)
    (h : HalfRatePhy.build config table = .ok start) :
    ∃ serializer deserializer p, config.serializer.add ⟨1, 0⟩ = .ok serializer ∧
      config.deserializer.add ⟨2, 0⟩ = .ok deserializer ∧
      Phy.build { config with serializer, deserializer } table = .ok p ∧
      ((∀ i ∈ inputs, i.phases.length = phasesPerCycle) →
        phasesPerCycle * inputs.length < Count.limit → ∃ q, start.after inputs = .ok q) ∧
      (∀ r, p.after (besideInputs config inputs) = .ok r ↔
        ∃ q, start.after inputs = .ok q ∧ q.inner = r) ∧
      ∀ q, start.after inputs = .ok q → ∀ t, t < inputs.length →
        ∃ cycle c before, start.cycleAt inputs t = .ok cycle ∧
          p.cycleAt (besideInputs config inputs) t = .ok c ∧
          p.outputBefore (besideInputs config inputs) (PadOutput.resting config) t = .ok before ∧
          cycle.phases = c.phases ∧ cycle.phy.inner = c.phy ∧ before.SplitsInto cycle.pads := by
  obtain ⟨serializer, deserializer, p, hserializer, hdeserializer, hp, hstart⟩ :=
    HalfRatePhy.build_tracks h
  have hbeside : besideInputs config inputs =
      besideInputs { config with serializer, deserializer } inputs := rfl
  have hresting : PadOutput.resting config =
      PadOutput.resting { config with serializer, deserializer } := rfl
  rw [hbeside, hresting]
  refine ⟨serializer, deserializer, p, hserializer, hdeserializer, hp, ?_⟩
  generalize { config with serializer, deserializer } = inner at hp hstart
  refine ⟨fun hl hlen => ?_, fun r => ⟨?_, ?_⟩, fun q hq t ht => ?_⟩
  · obtain ⟨-, hs, hf, hsuppressed⟩ := Phy.build_follows hp
    obtain ⟨r, hr, -⟩ := Phy.after_ok hs hf hsuppressed (besideInputs_wellFormed hl)
      (by rwa [besideInputs_length])
    obtain ⟨q, hq, -⟩ := HalfRatePhy.after_ok hp hstart hr
    exact ⟨q, hq⟩
  · exact HalfRatePhy.after_ok hp hstart
  · rintro ⟨q, hq, rfl⟩
    exact (HalfRatePhy.after_tracks hp hstart hq).inner
  · obtain ⟨before, cycle, hbefore, hcycle, hat⟩ := HalfRatePhy.after_take hq ht
    have htracks := HalfRatePhy.after_tracks hp hstart hbefore
    obtain ⟨out, hout, hstage⟩ := htracks.stage
    obtain ⟨c, hinner⟩ := hstage.cycleOn_inner hcycle
    obtain ⟨_, hcycle', hphases, hphy, hsplits, -⟩ := htracks.next hp hout hinner
    obtain rfl := Except.ok.inj (hcycle.symm.trans hcycle')
    refine ⟨cycle, c, out, hat, ?_, ?_, hphases, hphy, hsplits⟩
    · have hentry : entry (besideInputs inner inputs) t =
          .ok (besideInput inner (inputs.take t) inputs[t]) := by
        rw [entry_eq_ok, besideInputs_getElem?, List.getElem?_eq_getElem ht, Option.map_some]
      rw [Phy.cycleAt, besideInputs_take, htracks.inner, ok_bind, hentry, ok_bind, hinner]
    · rwa [← besideInputs_take, List.length_take, Nat.min_eq_left (Nat.le_of_lt ht),
        Phy.outputBefore_take _ _ (by rw [besideInputs_length]; omega)] at hout

/-- The two halves of a word are sampled in the first of four cycles, and a command comes in
the second. -/
def halfRateRun : List HalfRateInput :=
  let idle := List.replicate 8 Phase.idle
  let quiet : Halves PadInput := ⟨PadInput.blank 16, PadInput.blank 16⟩
  let sampled : Halves PadInput :=
    ⟨{ PadInput.blank 16 with dq := List.replicate 16 0x134 },
      { PadInput.blank 16 with dq := List.replicate 16 0x012 }⟩
  [(idle, sampled), (idle.set 5 { Phase.idle with command := CommandSlot.single 0 0 }, quiet),
    (idle, quiet), (idle, quiet)].map fun x => ⟨CalibrationRegisters.make 0 0, x.1, x.2⟩

def highResetConfig : PhyConfig := { PhyConfig.ofClock 100000000 with serdesReset := true }

/-- The reset value leaves in the first cycle and is read until the samples come through. -/
theorem half_rate_round_trip :
    ∃ start, HalfRatePhy.build highResetConfig CasTable.mt53e256m16d1 = .ok start ∧
      start.inner.settings.timing.readLatency = 8 ∧
      (∃ first, start.cycleAt halfRateRun 0 = .ok first ∧ first.pads.second.lane .cs = .ok 0xf) ∧
      (∃ early, start.cycleAt halfRateRun 2 = .ok early ∧
        laneWord early.phases Phase.rddata 16 3 = 0xffff) ∧
      ∃ cycle, start.cycleAt halfRateRun 3 = .ok cycle ∧
        laneWord cycle.phases Phase.rddata 16 3 = 0x1234 ∧ cycle.pads.second.lane .cs = .ok 2 := by
  obtain ⟨start, hstart, hlatency⟩ : ∃ start,
      HalfRatePhy.build highResetConfig CasTable.mt53e256m16d1 = .ok start ∧
        start.inner.settings.timing.readLatency = 8 := by
    decide +kernel
  obtain ⟨p, hp, ⟨e, he, hresting⟩, ⟨c, hc, hdata⟩, out, hout, hcommand⟩ : ∃ p,
      Phy.build { highResetConfig with serializer := ⟨1, 0⟩, deserializer := ⟨2, 0⟩ }
        CasTable.mt53e256m16d1 = .ok p ∧
      (∃ e, p.cycleAt (besideInputs highResetConfig halfRateRun) 2 = .ok e ∧
        laneWord e.phases Phase.rddata 16 3 = 0xffff) ∧
      (∃ c, p.cycleAt (besideInputs highResetConfig halfRateRun) 3 = .ok c ∧
        laneWord c.phases Phase.rddata 16 3 = 0x1234) ∧
      ∃ out, p.outputBefore (besideInputs highResetConfig halfRateRun)
        (PadOutput.resting highResetConfig) 3 = .ok out ∧ out.cs = 0x20 := by
    decide +kernel
  obtain ⟨serializer, deserializer, p', hser, hdes, hp', hruns, -, hshows⟩ :=
    half_rate_refines halfRateRun hstart
  obtain rfl : ⟨1, 0⟩ = serializer := Except.ok.inj hser
  obtain rfl : ⟨2, 0⟩ = deserializer := Except.ok.inj hdes
  obtain rfl : p = p' := Except.ok.inj (hp.symm.trans hp')
  obtain ⟨q, hq⟩ := hruns (by decide) (by decide)
  obtain ⟨first, -, before, hfirst, -, hbefore, -, -, hsent⟩ := hshows q hq 0 (by decide)
  obtain rfl : PadOutput.resting highResetConfig = before := Except.ok.inj hbefore
  obtain ⟨early, e', -, hearly, he', -, hread, -, -⟩ := hshows q hq 2 (by decide)
  obtain rfl : e = e' := Except.ok.inj (he.symm.trans he')
  obtain ⟨cycle, c', out', hat, hcycle, hout', hphases, -, hsplits⟩ := hshows q hq 3 (by decide)
  obtain rfl : c = c' := Except.ok.inj (hc.symm.trans hcycle)
  obtain rfl : out = out' := Except.ok.inj (hout.symm.trans hout')
  refine ⟨start, hstart, hlatency, ⟨first, hfirst, ?_⟩, ⟨early, hearly, by rw [hread, hresting]⟩,
    cycle, hat, by rw [hphases, hdata], ?_⟩
  · rw [hsent.second.lane_eq .cs (by simp [PadOutput.lanes]) rfl rfl]
    decide
  · rw [hsplits.second.lane_eq .cs (by simp [PadOutput.lanes]) rfl rfl, hcommand]
    decide

end DramPhy
