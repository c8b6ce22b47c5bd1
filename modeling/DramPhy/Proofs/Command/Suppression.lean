import DramPhy.Proofs.Command.Decision

/-! The suppressed commands. A run in which no command is suppressed always
succeeds, and two runs with the same valid slots suppress alike. -/

namespace DramPhy

variable {phases t s : Nat} {masking : Bool} {cycles : List (List CommandSlot)} {a : Arbiter}

theorem Arbiter.Follows.dropped_getLsbD (h : a.Follows phases masking cycles)
    (hlen : cycles.length = t + 1) (p : Nat) :
    a.dropped.getLsbD p = true ↔
      p < phases ∧ ValidSlot phases cycles (t * phases + p) ∧ a.allowed.getLsbD p = false := by
  have hw := h.room
  have hbit : a.dropped.getLsbD p = (decide (p < 64) && (a.valids.history.getLsbD (phases + p) &&
      !a.allowed.getLsbD p)) := by
    rw [Arbiter.dropped, h.phases_eq, BitVec.getLsbD_and, BitVec.getLsbD_ushiftRight, BitVec.getLsbD_not]
    ac_rfl
  rw [hbit, Bool.and_eq_true, Bool.and_eq_true, h.history_getLsbD hlen, decide_eq_true_iff,
    Bool.not_eq_true']
  constructor
  · rintro ⟨-, ⟨hp, s, hs, hv⟩, ha⟩
    rw [show s = t * phases + p by omega] at hv
    exact ⟨by omega, hv, ha⟩
  · rintro ⟨hp, hv, ha⟩
    exact ⟨by omega, ⟨by omega, t * phases + p, by omega, hv⟩, ha⟩

theorem Arbiter.Follows.dropped_empty (h : a.Follows phases masking []) : a.dropped = 0 := by
  apply BitVec.eq_of_getLsbD_eq
  intro p _
  have hzero : ∀ i, a.valids.history.getLsbD i = false := by
    intro i
    apply Bool.eq_false_iff.mpr
    rw [ne_eq, h.valids.history_getLsbD]
    simp [streamBit]
  simp [Arbiter.dropped, hzero]

theorem slotCommand_append {commands : List CommandSlot} (hs : s / phases < cycles.length) :
    slotCommand phases (cycles ++ [commands]) s = slotCommand phases cycles s := by
  rw [slotCommand, slotCommand, List.getElem?_append_left hs]

theorem suppressed_append_iff (hs : s / phases < cycles.length) (commands : List CommandSlot) :
    Suppressed phases masking (cycles ++ [commands]) s ↔ Suppressed phases masking cycles s := by
  rw [Suppressed, Suppressed, ValidSlot, ValidSlot, slotCommand_append hs,
    List.take_append_of_le_length (by omega)]

theorem Suppressed.append (h : Suppressed phases masking cycles s) (commands : List CommandSlot) :
    Suppressed phases masking (cycles ++ [commands]) s :=
  (suppressed_append_iff (validSlot_lt h.1) commands).mpr h

theorem Arbiter.after_ok_of_none_suppressed (hn : lookback ≤ phases) (hw : 2 * phases ≤ 64)
    (hfull : ∀ cycle ∈ cycles, cycle.length = phases)
    (hnone : ∀ s, ¬ Suppressed phases masking cycles s) :
    ∃ a, Arbiter.after phases masking cycles = .ok a ∧ a.suppressed = 0 ∧ a.dropped = 0 := by
  induction cycles using List.reverseRecOn with
  | nil =>
    obtain ⟨a, ha, hf, hs⟩ := Arbiter.make_follows masking hn hw
    exact ⟨a, by rw [Arbiter.after, ha]; rfl, hs, hf.dropped_empty⟩
  | append_singleton cycles commands ih =>
    obtain ⟨a, ha, hs, hd⟩ := ih (fun cycle hc => hfull cycle (List.mem_append_left _ hc))
      (fun s hsup => hnone s (hsup.append commands))
    have hf := Arbiter.after_follows ha
    have hl := hfull commands (by simp)
    have hstep : Arbiter.after phases masking (cycles ++ [commands]) = .ok (a.next commands) := by
      rw [Arbiter.after_singleton, ha, ok_bind]
      exact (Arbiter.tick_eq_ok hf).mpr ⟨hl, by rw [hs, hd]; decide, rfl⟩
    refine ⟨a.next commands, hstep, by rw [Arbiter.next, hs, hd]; rfl, ?_⟩
    apply BitVec.eq_of_getLsbD_eq
    intro p _
    rw [show (0 : Word).getLsbD p = false from BitVec.getLsbD_zero]
    apply Bool.eq_false_iff.mpr
    intro hb
    obtain ⟨hp, hv, hallow⟩ := ((hf.next hl).dropped_getLsbD
      (show (cycles ++ [commands]).length = cycles.length + 1 by simp) p).mp hb
    refine hnone _ ⟨hv, a.next commands, ?_, by rwa [slot_mod hp]⟩
    rwa [slot_div hp, List.take_of_length_le (by simp)]

theorem suppressed_window_iff
    (h : Arbiter.after phases true (cycles.take (s / phases + 1)) = .ok a) :
    Suppressed phases true cycles s ↔
      ValidSlot phases cycles s ∧ BehindWindowHead phases cycles (s / phases) s := by
  refine and_congr_right fun hv => ?_
  have hmod : s % phases < phases := Nat.mod_lt _ (Arbiter.after_follows h).pos
  have hiff := Arbiter.allowed_take_iff h (validSlot_lt hv) hmod
  rw [Nat.div_add_mod'] at hiff
  rw [← not_iff_not, ← hiff, not_exists]
  constructor
  · intro hno
    by_contra hb
    exact hno a ⟨h, Bool.eq_false_iff.mpr hb⟩
  · rintro hb c ⟨hc, hallow⟩
    rw [h] at hc
    rw [Except.ok.inj hc, hallow] at hb
    exact Bool.noConfusion hb

theorem suppressed_iff (hn : 2 * lookback ≤ phases)
    (h : Arbiter.after phases true (cycles.take (s / phases + 1)) = .ok a) :
    Suppressed phases true cycles s ↔ ValidSlot phases cycles s ∧ BehindHead phases cycles s := by
  rw [suppressed_window_iff h, behindWindowHead_iff hn (Nat.div_mul_le_self s phases)]

theorem Suppressed.behindHead (hn : 2 * lookback ≤ phases) (h : Suppressed phases true cycles s) :
    BehindHead phases cycles s := by
  have hsup := h
  obtain ⟨-, a, ha, -⟩ := h
  exact ((suppressed_iff hn ha).mp hsup).2

theorem not_suppressed_unmasked : ¬ Suppressed phases false cycles s := by
  rintro ⟨-, a, ha, hallow⟩
  have hf := Arbiter.after_follows ha
  rw [hf.allowed_unmasked, decide_eq_true (Nat.mod_lt _ hf.pos)] at hallow
  exact Bool.noConfusion hallow

/-- Two runs with the same valid slots take the same decisions and succeed alike. -/
theorem Arbiter.after_alike {others : List (List CommandSlot)}
    (hothers : ∀ cycle ∈ others, cycle.length = phases)
    (hvalid : others.map validWord = cycles.map validWord)
    (h : Arbiter.after phases masking cycles = .ok a) :
    ∃ b, Arbiter.after phases masking others = .ok b ∧ b.valids = a.valids ∧
      b.allowed = a.allowed ∧ b.suppressed = a.suppressed := by
  induction cycles using List.reverseRecOn generalizing a others with
  | nil =>
    rw [List.map_nil, List.map_eq_nil_iff] at hvalid
    exact ⟨a, by rwa [hvalid], rfl, rfl, rfl⟩
  | append_singleton cycles commands ih =>
    rw [List.map_append, List.map_singleton, List.map_eq_append_iff] at hvalid
    obtain ⟨before, last, rfl, hbefore, hlast⟩ := hvalid
    obtain ⟨command, rfl, hcommand⟩ := List.map_eq_singleton_iff.mp hlast
    rw [Arbiter.after_singleton, bind_eq_ok] at h
    obtain ⟨c, hc, ht⟩ := h
    have hf := Arbiter.after_follows hc
    obtain ⟨hl, hroom, rfl⟩ := (Arbiter.tick_eq_ok hf).mp ht
    obtain ⟨d, hd, hv, ha, hs⟩ := ih (fun cycle hm => hothers cycle (by simp [hm])) hbefore hc
    have hg := Arbiter.after_follows hd
    have hp : d.phases = c.phases := by rw [hf.phases_eq, hg.phases_eq]
    have hm : d.masking = c.masking := by rw [hf.masking_eq, hg.masking_eq]
    have hdrop : d.dropped = c.dropped := by rw [Arbiter.dropped, Arbiter.dropped, hv, ha, hp]
    have hnext : (d.next command).valids = (c.next commands).valids := by
      rw [Arbiter.next, Arbiter.next, hv, hcommand]
    refine ⟨d.next command, ?_, hnext, ?_, ?_⟩
    · rw [Arbiter.after_singleton, hd, ok_bind]
      exact (Arbiter.tick_eq_ok hg).mpr ⟨hothers command (by simp), by rwa [hs, hdrop], rfl⟩
    · have hheads : (d.next command).heads = (c.next commands).heads := by
        rw [Arbiter.heads, Arbiter.heads, hnext]
        rw [Arbiter.next, Arbiter.next, hp]
      rw [Arbiter.allowed, Arbiter.allowed, hheads]
      rw [Arbiter.next, Arbiter.next, hp, hm]
    · rw [Arbiter.next, Arbiter.next, hs, hdrop]

end DramPhy
