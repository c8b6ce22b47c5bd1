import DramPhy.Proofs.Command.Exclusivity
import DramPhy.Proofs.Command.Suppression

/-! Which commands are dropped. A head is never behind another head, so it is let
through, and a command is dropped only behind a head. Every drop thus goes back to a
command that reaches the pads shortly before it. -/

namespace DramPhy

variable {phases s : Nat} {cycles : List (List CommandSlot)} {a : Arbiter}

theorem HeadSlot.not_behindHead (h : HeadSlot phases cycles s) : ¬ BehindHead phases cycles s := by
  rintro ⟨r, hr, hlt, hle⟩
  exact h.2 r hlt hle hr.1

theorem HeadSlot.letThrough (hn : 2 * lookback ≤ phases)
    (h : Arbiter.after phases true cycles = .ok a) (hs : HeadSlot phases cycles s) :
    LetThrough phases true cycles s :=
  (letThrough_iff hn h).mpr ⟨hs.1, hs.not_behindHead⟩

theorem Suppressed.behind_letThrough (hn : 2 * lookback ≤ phases)
    (h : Arbiter.after phases true cycles = .ok a) (hs : Suppressed phases true cycles s) :
    ∃ r, LetThrough phases true cycles r ∧ r < s ∧ s ≤ r + lookback := by
  obtain ⟨r, hr, hlt, hle⟩ := hs.behindHead hn
  exact ⟨r, hr.letThrough hn h, hlt, hle⟩

/-- A phase is allowed exactly when no head of the whole stream is shortly before its slot. So
heads are let through, and what is suppressed is shortly behind a command that is not. -/
theorem dropped_behind_head (hn : 6 ≤ phases) (hw : phases ≤ 32)
    (hfull : ∀ cycle ∈ cycles, cycle.length = phases) :
    (phases * cycles.length < Count.limit → ∃ a, Arbiter.after phases true cycles = .ok a) ∧
    ∀ a, Arbiter.after phases true cycles = .ok a →
      (∀ t p, t < cycles.length → p < phases →
        ∃ b, Arbiter.after phases true (cycles.take (t + 1)) = .ok b ∧
          (b.allowed.getLsbD p = true ↔ ¬ BehindHead phases cycles (t * phases + p))) ∧
      (∀ s, HeadSlot phases cycles s → LetThrough phases true cycles s) ∧
      (∀ s, Suppressed phases true cycles s →
        ∃ r, LetThrough phases true cycles r ∧ r < s ∧ s ≤ r + lookback) := by
  have hn' : 2 * lookback ≤ phases := by simpa only [lookback] using hn
  refine ⟨fun hlen => ?_, fun a ha => ⟨fun t p ht hp => ?_, fun s hs => hs.letThrough hn' ha,
    fun s hs => hs.behind_letThrough hn' ha⟩⟩
  · obtain ⟨a, ha, -⟩ := Arbiter.after_ok true (by omega) (by omega) hfull hlen
    exact ⟨a, ha⟩
  · obtain ⟨b, hb⟩ := Arbiter.after_take ha (t + 1)
    have hiff := allowedAfter_iff hn' ha ht hp
    refine ⟨b, hb, Iff.trans ?_ hiff⟩
    constructor
    · exact fun hallow => ⟨b, hb, hallow⟩
    · rintro ⟨c, hc, hallow⟩
      rwa [Except.ok.inj (hb.symm.trans hc)]

/-- A head on the last phase of a cycle drops the command on phase 1 of the next one, but that
one drops nothing. -/
theorem dropped_across_cycles :
    Suppressed 8 true [commandsOn [7], commandsOn [1, 3]] 9 ∧
      LetThrough 8 true [commandsOn [7], commandsOn [1, 3]] 7 ∧
      LetThrough 8 true [commandsOn [7], commandsOn [1, 3]] 11 := by
  obtain ⟨hruns, hrule⟩ := dropped_behind_head (show 6 ≤ 8 by decide) (by decide)
    (show ∀ cycle ∈ [commandsOn [7], commandsOn [1, 3]], cycle.length = 8 by decide)
  obtain ⟨a, ha⟩ := hruns (by decide)
  obtain ⟨hallowed, hheads, -⟩ := hrule a ha
  have hhead : HeadSlot 8 [commandsOn [7], commandsOn [1, 3]] 7 := by decide
  obtain ⟨b, hb, hdrop⟩ := hallowed 1 1 (by decide) (by decide)
  obtain ⟨c, hc, hpass⟩ := hallowed 1 3 (by decide) (by decide)
  have hfree : ¬ BehindHead 8 [commandsOn [7], commandsOn [1, 3]] (1 * 8 + 3) := by
    have hnone : ∀ r < 11, 8 ≤ r → ¬ HeadSlot 8 [commandsOn [7], commandsOn [1, 3]] r := by decide
    rintro ⟨r, hr, hlt, hle⟩
    exact hnone r hlt (by simp only [lookback] at hle; omega) hr
  refine ⟨⟨by decide, b, hb, Bool.eq_false_iff.mpr fun hallow => ?_⟩, hheads 7 hhead,
    by decide, c, hc, hpass.mpr hfree⟩
  exact hdrop.mp hallow ⟨7, hhead, by decide, by decide⟩

end DramPhy
