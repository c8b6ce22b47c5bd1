import DramPhy.Proofs.Command.ArbiterRun

/-! The masking decision in terms of the whole slot stream. The arbiter sees two
cycles of it, and what it takes for a head may be none in the whole stream. With at
least six phases its history reaches far enough back for every slot that a decision
looks at, so a phase is allowed exactly when no head is shortly before its slot. -/

namespace DramPhy

/-- A head as far as the slots of cycle `t` and of the cycle before it tell. -/
def WindowHead (phases : Nat) (cycles : List (List CommandSlot)) (t s : Nat) : Prop :=
  ValidSlot phases cycles s ∧ t * phases ≤ s + phases ∧
    ∀ r, r < s → s ≤ r + lookback → t * phases ≤ r + phases → ¬ ValidSlot phases cycles r

def BehindWindowHead (phases : Nat) (cycles : List (List CommandSlot)) (t s : Nat) : Prop :=
  ∃ h, WindowHead phases cycles t h ∧ h < s ∧ s ≤ h + lookback

variable {phases t s : Nat} {masking : Bool} {cycles : List (List CommandSlot)} {a : Arbiter}

theorem slotCommand_take (hs : s < (t + 1) * phases) :
    slotCommand phases (cycles.take (t + 1)) s = slotCommand phases cycles s := by
  have hlt : s / phases < t + 1 := Nat.div_lt_of_lt_mul (by rwa [Nat.mul_comm])
  rw [slotCommand, slotCommand, List.getElem?_take_of_lt hlt]

theorem validSlot_take (hs : s < (t + 1) * phases) :
    ValidSlot phases (cycles.take (t + 1)) s ↔ ValidSlot phases cycles s := by
  rw [ValidSlot, ValidSlot, slotCommand_take hs]

theorem windowHead_take (hs : s < (t + 1) * phases) :
    WindowHead phases (cycles.take (t + 1)) t s ↔ WindowHead phases cycles t s := by
  rw [WindowHead, WindowHead, validSlot_take hs]
  refine and_congr_right fun _ => and_congr_right fun _ => forall_congr' fun r => ?_
  exact forall_congr' fun hr => by rw [validSlot_take (Nat.lt_trans hr hs)]

theorem behindWindowHead_take (hs : s < (t + 1) * phases) :
    BehindWindowHead phases (cycles.take (t + 1)) t s ↔ BehindWindowHead phases cycles t s := by
  refine exists_congr fun h => ?_
  constructor
  · rintro ⟨hh, hlt, hle⟩
    exact ⟨(windowHead_take (Nat.lt_trans hlt hs)).mp hh, hlt, hle⟩
  · rintro ⟨hh, hlt, hle⟩
    exact ⟨(windowHead_take (Nat.lt_trans hlt hs)).mpr hh, hlt, hle⟩

/-- A slot with all its predecessors in the history is a head there exactly when
it is one of the whole stream. -/
theorem windowHead_iff (hs : t * phases + lookback ≤ s + phases) :
    WindowHead phases cycles t s ↔ HeadSlot phases cycles s := by
  refine and_congr_right fun _ => ?_
  constructor
  · rintro ⟨-, hq⟩ r hr hle
    exact hq r hr hle (by omega)
  · intro hq
    exact ⟨by omega, fun r hr hle _ => hq r hr hle⟩

theorem behindWindowHead_iff (hn : 2 * lookback ≤ phases) (hs : t * phases ≤ s) :
    BehindWindowHead phases cycles t s ↔ BehindHead phases cycles s := by
  refine exists_congr fun h => and_congr_left fun hclose => ?_
  exact windowHead_iff (by omega)

theorem validSlot_lt (h : ValidSlot phases cycles s) : s / phases < cycles.length := by
  by_contra hge
  have hnone : cycles[s / phases]? = none := List.getElem?_eq_none (by omega)
  simp [ValidSlot, slotCommand, hnone, CommandSlot.idle] at h

theorem streamBit_validWord (hfull : ∀ cycle ∈ cycles, cycle.length = phases) (hn : 0 < phases)
    (hw : 2 * phases ≤ 64) (s : Nat) :
    streamBit phases (cycles.map validWord) s = true ↔ ValidSlot phases cycles s := by
  have hmod : s % phases < phases := Nat.mod_lt _ hn
  rw [streamBit, List.getElem?_map, ValidSlot, slotCommand]
  cases hc : cycles[s / phases]? with
  | none => simp [CommandSlot.idle]
  | some cycle =>
    have hlen := hfull cycle (List.mem_of_getElem? hc)
    have hword : (validWord cycle).getLsbD (s % phases) = cycle[s % phases]?.any (·.valid) := by
      rw [validWord, Word.getLsbD_ofBits, decide_eq_true (show s % phases < cycle.length by omega),
        decide_eq_true (show s % phases < 64 by omega), Bool.true_and, Bool.true_and]
    rw [Option.map_some, Option.any_some, hword, Option.bind_some]
    cases cycle[s % phases]? <;> simp [CommandSlot.idle]

theorem Arbiter.Follows.history_getLsbD (h : a.Follows phases masking cycles)
    (hlen : cycles.length = t + 1) (i : Nat) :
    a.valids.history.getLsbD i = true ↔
      i < 2 * phases ∧ ∃ s, s + phases = t * phases + i ∧ ValidSlot phases cycles s := by
  rw [h.valids.history_getLsbD, List.length_map, hlen, Nat.add_one_mul t phases]
  refine and_congr_right fun _ => exists_congr fun s => ?_
  rw [streamBit_validWord h.full h.pos h.room]
  exact and_congr_left fun _ => by omega

theorem Arbiter.Follows.heads_getLsbD (h : a.Follows phases masking cycles)
    (hlen : cycles.length = t + 1) {i : Nat} (hs : s + phases = t * phases + i)
    (hhi : i < 2 * phases) :
    a.heads.getLsbD i = true ↔ WindowHead phases cycles t s := by
  have hw := h.room
  have hbit : ∀ r j, r + phases = t * phases + j → j < 2 * phases →
      (a.valids.history.getLsbD j = true ↔ ValidSlot phases cycles r) := by
    intro r j hr hj
    rw [h.history_getLsbD hlen]
    constructor
    · rintro ⟨-, r', hr', hv⟩
      rwa [show r = r' by omega]
    · exact fun hv => ⟨hj, r, hr, hv⟩
  have hheads : a.heads.getLsbD i = isHead a.valids.history i := by
    rw [Arbiter.heads, Word.getLsbD_ofBits, h.phases_eq, decide_eq_true hhi,
      decide_eq_true (show i < 64 by omega), Bool.true_and, Bool.true_and]
  rw [hheads, isHead, Bool.and_eq_true, hbit s i hs hhi, Word.quiet_iff, WindowHead]
  refine and_congr_right fun _ => ?_
  constructor
  · intro hq
    refine ⟨by omega, fun r hr hle hin hv => ?_⟩
    have := hq (i - (s - r)) (by omega) (by omega)
    rw [(hbit r (i - (s - r)) (by omega) (by omega)).mpr hv] at this
    exact Bool.noConfusion this
  · rintro ⟨-, hq⟩ j hj hji
    apply Bool.eq_false_iff.mpr
    intro hb
    obtain ⟨-, r, hr, hv⟩ := (h.history_getLsbD hlen j).mp hb
    exact hq r (by omega) (by omega) (by omega) hv

theorem Arbiter.Follows.allowed_iff (h : a.Follows phases true cycles)
    (hlen : cycles.length = t + 1) {p : Nat} (hp : p < phases) :
    a.allowed.getLsbD p = true ↔ ¬ BehindWindowHead phases cycles t (t * phases + p) := by
  have hw := h.room
  have hn := h.lookback_le
  have hallowed : a.allowed.getLsbD p = a.heads.quiet (phases + p - lookback) lookback := by
    rw [Arbiter.allowed, h.masking_eq, if_pos rfl, h.phases_eq, Word.getLsbD_ofBits,
      decide_eq_true hp, decide_eq_true (show p < 64 by omega), Bool.true_and, Bool.true_and]
  rw [hallowed, Word.quiet_iff]
  constructor
  · rintro hq ⟨r, hr, hlt, hle⟩
    have hin := hr.2.1
    have hb := (h.heads_getLsbD hlen (show r + phases = t * phases + (r + phases - t * phases) by
      omega) (by omega)).mpr hr
    rw [hq _ (by omega) (by omega)] at hb
    exact Bool.noConfusion hb
  · intro hno i hlo hhi
    apply Bool.eq_false_iff.mpr
    intro hb
    have hbit : a.valids.history.getLsbD i = true := by
      rw [Arbiter.heads, Word.getLsbD_ofBits, isHead] at hb
      simp only [Bool.and_eq_true] at hb
      exact hb.2.1
    obtain ⟨-, r, hr, -⟩ := (h.history_getLsbD hlen i).mp hbit
    exact hno ⟨r, (h.heads_getLsbD hlen hr (by omega)).mp hb, by omega, by omega⟩

/-- The decision on cycle `t` of a run, with the later cycles in view as well. -/
theorem Arbiter.allowed_take_iff (h : Arbiter.after phases true (cycles.take (t + 1)) = .ok a)
    (ht : t < cycles.length) {p : Nat} (hp : p < phases) :
    a.allowed.getLsbD p = true ↔ ¬ BehindWindowHead phases cycles t (t * phases + p) := by
  have hlen : (cycles.take (t + 1)).length = t + 1 := by
    rw [List.length_take]
    omega
  rw [(Arbiter.after_follows h).allowed_iff hlen hp,
    behindWindowHead_take (by rw [Nat.add_one_mul t phases]; omega)]

theorem Arbiter.Follows.allowed_unmasked (h : a.Follows phases false cycles) (p : Nat) :
    a.allowed.getLsbD p = decide (p < phases) := by
  have hw := h.room
  rw [Arbiter.allowed, h.masking_eq, if_neg Bool.false_ne_true, h.phases_eq, getLsbD_lowMask]
  by_cases hp : p < phases
  · simp [hp, show p < 64 by omega]
  · simp [hp]

theorem allowedAfter_window_iff (h : Arbiter.after phases true cycles = .ok a)
    (ht : t < cycles.length) {p : Nat} (hp : p < phases) :
    AllowedAfter phases true cycles t p ↔ ¬ BehindWindowHead phases cycles t (t * phases + p) := by
  obtain ⟨b, hb⟩ := Arbiter.after_take h (t + 1)
  rw [← Arbiter.allowed_take_iff hb ht hp]
  constructor
  · rintro ⟨c, hc, hallow⟩
    rw [hb] at hc
    rwa [Except.ok.inj hc]
  · exact fun hallow => ⟨b, hb, hallow⟩

theorem allowedAfter_iff (hn : 2 * lookback ≤ phases) (h : Arbiter.after phases true cycles = .ok a)
    (ht : t < cycles.length) {p : Nat} (hp : p < phases) :
    AllowedAfter phases true cycles t p ↔ ¬ BehindHead phases cycles (t * phases + p) := by
  rw [allowedAfter_window_iff h ht hp, behindWindowHead_iff hn (Nat.le_add_right _ _)]

theorem letThrough_window_iff (h : Arbiter.after phases true cycles = .ok a) :
    LetThrough phases true cycles s ↔
      ValidSlot phases cycles s ∧ ¬ BehindWindowHead phases cycles (s / phases) s := by
  refine and_congr_right fun hv => ?_
  have hmod : s % phases < phases := Nat.mod_lt _ (Arbiter.after_follows h).pos
  rw [allowedAfter_window_iff h (validSlot_lt hv) hmod, Nat.div_add_mod']

/-- A command is let through exactly when no head is shortly before it. -/
theorem letThrough_iff (hn : 2 * lookback ≤ phases) (h : Arbiter.after phases true cycles = .ok a) :
    LetThrough phases true cycles s ↔ ValidSlot phases cycles s ∧ ¬ BehindHead phases cycles s := by
  rw [letThrough_window_iff h, behindWindowHead_iff hn (Nat.div_mul_le_self s phases)]

end DramPhy
