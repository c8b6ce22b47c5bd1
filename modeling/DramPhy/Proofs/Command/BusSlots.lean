import DramPhy.Proofs.Command.Decision

/-! The command pads in terms of the slot stream. Tick `k` of a command is driven
on the slot `k` after its own, and what keeps it off a pad there is the decision
of the cycle that the tick falls into, for the phase of the command. -/

namespace DramPhy

/-- The command of slot `s` drives a pad on slot `x`. -/
def Drives (phases : Nat) (masking : Bool) (cycles : List (List CommandSlot)) (s : Nat)
    (pin : CommandPin) (x : Nat) : Prop :=
  ∃ k, k < commandTicks ∧ s + k = x ∧ AllowedAfter phases masking cycles (x / phases) (s % phases) ∧
    (slotCommand phases cycles s).high pin k = true

/-- Two runs show the same pads after every tick. -/
def SameBus (phases : Nat) (masking masking' : Bool) (cycles cycles' : List (List CommandSlot)) : Prop :=
  ∀ t, t < cycles.length → ∃ bus, busAfter phases masking cycles t = .ok bus ∧
    busAfter phases masking' cycles' t = .ok bus

variable {phases t s k x : Nat} {masking : Bool} {cycles : List (List CommandSlot)} {a b : Arbiter}
  {pin : CommandPin}

theorem CommandBus.ext_word {b c : CommandBus} (h : ∀ pin, b.word pin = c.word pin) : b = c := by
  have hca : b.ca = c.ca := Vector.ext fun i hi => h (.ca ⟨i, hi⟩)
  have hcs : b.cs = c.cs := h .cs
  cases b
  cases c
  simp_all

theorem CommandBus.eq_iff {b c : CommandBus} :
    b = c ↔ ∀ pin j, (b.word pin).getLsbD j = true ↔ (c.word pin).getLsbD j = true := by
  constructor
  · rintro rfl
    simp
  · intro h
    apply CommandBus.ext_word
    intro pin
    apply BitVec.eq_of_getLsbD_eq
    intro j _
    exact Bool.eq_iff_iff.mpr (h pin j)

theorem slotCommand_phase {p : Nat} (hp : p < phases) (c : Nat) :
    slotCommand phases cycles (c * phases + p) =
      ((phaseCommands cycles p)[c]?).getD CommandSlot.idle := by
  rw [slotCommand, slot_div hp, slot_mod hp, phaseCommands, List.getElem?_map]
  cases cycles[c]? <;> simp

theorem streamBit_phaseCommands {p : Nat} (hp : p < phases) (pin : CommandPin) (pos : Nat) :
    streamBit phases ((phaseCommands cycles p).map (·.lane pin)) pos = true ↔
      pos % phases < commandTicks ∧
        (slotCommand phases cycles (pos / phases * phases + p)).high pin (pos % phases) = true := by
  rw [slotCommand_phase hp, ← decide_eq_true_iff (p := pos % phases < commandTicks),
    ← Bool.and_eq_true, ← CommandSlot.lane_getLsbD, streamBit, List.getElem?_map]
  cases (phaseCommands cycles p)[pos / phases]? <;> simp [idle_lane]

theorem Arbiter.Follows.bus_getLsbD (h : a.Follows phases masking cycles)
    (hn : commandTicks ≤ phases) (pin : CommandPin) (j : Nat) :
    (a.bus.word pin).getLsbD j = true ↔ j < phases ∧ ∃ s k, k < commandTicks ∧
      s + k + phases = cycles.length * phases + j ∧ a.allowed.getLsbD (s % phases) = true ∧
      (slotCommand phases cycles s).high pin k = true := by
  have hfollows := h.pads pin
  rw [Arbiter.bus_word, CommandPad.driven_getLsbD]
  constructor
  · rintro ⟨p, r, hr, ha, hb⟩
    have hp : p < phases := by
      rw [← hfollows.length_eq]
      exact (List.getElem?_eq_some_iff.mp hr).1
    rw [(hfollows.carries p r hr).window_getLsbD, hfollows.slip_eq p r hr] at hb
    obtain ⟨hj, pos, heq, hbit⟩ := hb
    obtain ⟨hk, hhigh⟩ := (streamBit_phaseCommands hp pin pos).mp hbit
    have hsum := Nat.div_add_mod' pos phases
    simp only [phaseCommands, List.length_map] at heq
    refine ⟨hj, pos / phases * phases + p, pos % phases, hk, by omega, ?_, hhigh⟩
    rwa [slot_mod hp]
  · rintro ⟨hj, s, k, hk, heq, ha, hhigh⟩
    have hp : s % phases < phases := Nat.mod_lt _ h.pos
    have hk' : k < phases := by omega
    have hsum := Nat.div_add_mod' s phases
    obtain ⟨r, hr⟩ : ∃ r, (a.pad pin).slips[s % phases]? = some r :=
      ⟨_, List.getElem?_eq_getElem (by rw [hfollows.length_eq]; exact hp)⟩
    refine ⟨s % phases, r, hr, ha, ?_⟩
    rw [(hfollows.carries _ r hr).window_getLsbD, hfollows.slip_eq _ r hr]
    refine ⟨hj, s / phases * phases + k, ?_, ?_⟩
    · simp only [phaseCommands, List.length_map]
      omega
    · rw [streamBit_phaseCommands hp, slot_div hk', slot_mod hk', hsum]
      exact ⟨hk, hhigh⟩

/-- The pads in the course of a run: a pad is high exactly when some command drives
it there, one cycle after the slot of that tick. -/
theorem Arbiter.bus_drives (hn : commandTicks ≤ phases)
    (h : Arbiter.after phases masking (cycles.take t) = .ok a) (ht : t ≤ cycles.length)
    (pin : CommandPin) (j : Nat) : (a.bus.word pin).getLsbD j = true ↔ j < phases ∧
      ∃ s x, x + phases = t * phases + j ∧ Drives phases masking cycles s pin x := by
  have hf := Arbiter.after_follows h
  have hlen : (cycles.take t).length = t := by simp [ht]
  rw [hf.bus_getLsbD hn, hlen]
  refine and_congr_right fun hj => exists_congr fun s => ?_
  have hslot : ∀ k, s + k + phases = t * phases + j →
      (AllowedAfter phases masking cycles ((s + k) / phases) (s % phases) ↔
        a.allowed.getLsbD (s % phases) = true) ∧
      slotCommand phases (cycles.take t) s = slotCommand phases cycles s := by
    intro k hk
    obtain ⟨u, rfl⟩ : ∃ u, t = u + 1 := by
      refine ⟨t - 1, ?_⟩
      rcases Nat.eq_zero_or_pos t with rfl | hpos
      · omega
      · omega
    rw [Nat.add_one_mul u phases] at hk
    refine ⟨?_, slotCommand_take (by rw [Nat.add_one_mul u phases]; omega)⟩
    rw [show s + k = u * phases + j by omega, slot_div hj]
    constructor
    · rintro ⟨b, hb, hallow⟩
      rwa [← Except.ok.inj (hb.symm.trans h)]
    · exact fun hallow => ⟨a, h, hallow⟩
  constructor
  · rintro ⟨k, hk, heq, hallow, hhigh⟩
    obtain ⟨hiff, hcommand⟩ := hslot k heq
    rw [hcommand] at hhigh
    exact ⟨s + k, heq, k, hk, rfl, hiff.mpr hallow, hhigh⟩
  · rintro ⟨x, heq, k, hk, rfl, hallow, hhigh⟩
    obtain ⟨hiff, hcommand⟩ := hslot k heq
    rw [← hcommand] at hhigh
    exact ⟨k, hk, heq, hiff.mp hallow, hhigh⟩

/-- The pads after any tick of a run: a pad is high on a slot exactly when some
command drives it there. -/
theorem busAfter_drives (hn : commandTicks ≤ phases)
    (h : Arbiter.after phases masking cycles = .ok a) (ht : t < cycles.length) :
    ∃ bus, busAfter phases masking cycles t = .ok bus ∧ ∀ pin j, (bus.word pin).getLsbD j = true ↔
      j < phases ∧ ∃ s, Drives phases masking cycles s pin (t * phases + j) := by
  obtain ⟨c, hc⟩ := Arbiter.after_take h (t + 1)
  have hf := Arbiter.after_follows hc
  refine ⟨c.bus, by rw [busAfter, hc, ok_bind, Arbiter.output_ok hf], ?_⟩
  intro pin j
  rw [Arbiter.bus_drives hn hc ht, Nat.add_one_mul t phases]
  refine and_congr_right fun _ => exists_congr fun s => ?_
  constructor
  · rintro ⟨x, heq, hdrives⟩
    rwa [show t * phases + j = x by omega]
  · exact fun hdrives => ⟨t * phases + j, by omega, hdrives⟩

/-- A tick of a command falls into the command's own cycle or into the next one. -/
theorem tick_cycle (hn : commandTicks ≤ phases) (hk : k < commandTicks) (s : Nat) :
    (s % phases + k < phases ∧ (s + k) / phases * phases + s % phases = s) ∨
      (phases ≤ s % phases + k ∧ (s + k) / phases * phases + s % phases = s + phases) := by
  have hpos : 0 < phases := by simp only [commandTicks] at hn; omega
  have hmod := Nat.mod_lt s hpos
  have hsum := Nat.div_add_mod' s phases
  rcases Nat.lt_or_ge (s % phases + k) phases with hlt | hge
  · left
    have hdiv : (s + k) / phases = s / phases := by
      rw [← slot_div hlt (s / phases)]
      congr 1
      omega
    exact ⟨hlt, by rw [hdiv, hsum]⟩
  · right
    have hdiv : (s + k) / phases = s / phases + 1 := by
      rw [← slot_div (show s % phases + k - phases < phases by omega) (s / phases + 1),
        Nat.add_one_mul (s / phases) phases]
      congr 1
      omega
    refine ⟨hge, ?_⟩
    rw [hdiv, Nat.add_one_mul (s / phases) phases]
    omega

theorem drives_masked_iff (hn : 2 * lookback ≤ phases)
    (h : Arbiter.after phases true cycles = .ok a) (hx : x < cycles.length * phases) :
    Drives phases true cycles s pin x ↔ ∃ k, k < commandTicks ∧ s + k = x ∧
      ¬ BehindHead phases cycles (x / phases * phases + s % phases) ∧
      (slotCommand phases cycles s).high pin k = true := by
  have hpos : 0 < phases := by simp only [lookback] at hn; omega
  have ht : x / phases < cycles.length := Nat.div_lt_of_lt_mul (by rwa [Nat.mul_comm])
  rw [Drives, allowedAfter_iff hn h ht (Nat.mod_lt _ hpos)]

theorem drives_unmasked_iff (h : Arbiter.after phases false cycles = .ok a) :
    Drives phases false cycles s pin x ↔ ∃ k, k < commandTicks ∧ s + k = x ∧
      (slotCommand phases cycles s).high pin k = true := by
  have hallowed : AllowedAfter phases false cycles (x / phases) (s % phases) := by
    obtain ⟨b, hb⟩ := Arbiter.after_take h (x / phases + 1)
    have hf := Arbiter.after_follows hb
    exact ⟨b, hb, by rw [hf.allowed_unmasked, decide_eq_true (Nat.mod_lt _ hf.pos)]⟩
  refine exists_congr fun k => and_congr_right fun _ => and_congr_right fun _ => ?_
  exact and_iff_right hallowed

theorem sameBus_iff {masking' : Bool} {cycles' : List (List CommandSlot)} (hn : commandTicks ≤ phases)
    (h : Arbiter.after phases masking cycles = .ok a)
    (h' : Arbiter.after phases masking' cycles' = .ok b) (hlen : cycles'.length = cycles.length) :
    SameBus phases masking masking' cycles cycles' ↔ ∀ pin x, x < cycles.length * phases →
      ((∃ s, Drives phases masking cycles s pin x) ↔ ∃ s, Drives phases masking' cycles' s pin x) := by
  have hpos : 0 < phases := by simp only [commandTicks] at hn; omega
  constructor
  · intro hsame pin x hx
    have hmod := Nat.mod_lt x hpos
    have ht : x / phases < cycles.length := Nat.div_lt_of_lt_mul (by rwa [Nat.mul_comm])
    obtain ⟨bus, hbus, hbus'⟩ := hsame _ ht
    obtain ⟨c, hc, hdrives⟩ := busAfter_drives hn h ht
    obtain ⟨c', hc', hdrives'⟩ := busAfter_drives hn h' (by omega : x / phases < cycles'.length)
    rw [hbus] at hc
    rw [hbus'] at hc'
    have hiff := hdrives pin (x % phases)
    rw [← Except.ok.inj hc, Except.ok.inj hc', hdrives', Nat.div_add_mod' x phases] at hiff
    simpa only [hmod, true_and, iff_comm] using hiff
  · intro hsame t ht
    obtain ⟨c, hc, hdrives⟩ := busAfter_drives hn h ht
    obtain ⟨c', hc', hdrives'⟩ := busAfter_drives hn h' (by omega : t < cycles'.length)
    refine ⟨c, hc, ?_⟩
    rw [hc', Except.ok.injEq, CommandBus.eq_iff]
    intro pin j
    rw [hdrives, hdrives']
    refine and_congr_right fun hj => (hsame pin _ ?_).symm
    have := Nat.mul_le_mul_right phases (show t + 1 ≤ cycles.length by omega)
    rw [Nat.add_one_mul t phases] at this
    omega

end DramPhy
