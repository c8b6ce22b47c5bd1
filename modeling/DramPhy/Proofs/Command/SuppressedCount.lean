import DramPhy.Proofs.Command.Exclusivity
import DramPhy.Proofs.Command.Suppression
import Mathlib.Algebra.BigOperators.Intervals
import Mathlib.Data.Nat.Count

/-! The count of suppressed commands. A tick counts the commands of the tick before it, so
after a run every command but those of the last tick has been counted once. Reading the
arbiter in between changes nothing. -/

namespace DramPhy

/-- What can be asked of an arbiter. -/
inductive ArbiterCall where
  | tick (commands : List CommandSlot)
  | output
  | allows (phase : Nat)
  | heads

def Arbiter.call (a : Arbiter) : ArbiterCall → Checked Arbiter
  | .tick commands => a.tick commands
  | .output => do
    let _ ← a.output
    return a
  | .allows phase => do
    let _ ← a.allows phase
    return a
  | .heads => .ok a

/-- The arbiter once it has answered a sequence of calls. -/
def Arbiter.afterCalls (phases : Nat) (masking : Bool) (calls : List ArbiterCall) :
    Checked Arbiter := do
  let a ← Arbiter.make phases masking
  calls.foldlM Arbiter.call a

def ArbiterCall.ticked? : ArbiterCall → Option (List CommandSlot)
  | .tick commands => some commands
  | _ => none

/-- The cycles that a sequence of calls has latched. -/
def tickedCycles (calls : List ArbiterCall) : List (List CommandSlot) :=
  calls.filterMap ArbiterCall.ticked?

/-- How many slots of cycle `t` have a property. -/
def slotCount (phases t : Nat) (P : Nat → Prop) [DecidablePred P] : Nat :=
  Nat.count (fun p => P (t * phases + p)) phases

/-- How many slots have a property in all cycles but the last. -/
def settledCount (phases : Nat) (cycles : List (List CommandSlot)) (P : Nat → Prop)
    [DecidablePred P] : Nat :=
  ∑ t ∈ Finset.range (cycles.length - 1), slotCount phases t P

variable {phases t s : Nat} {masking : Bool} {cycles : List (List CommandSlot)} {a : Arbiter}
  {commands : List CommandSlot} {calls : List ArbiterCall}

section

variable {P Q : Nat → Prop} [DecidablePred P] [DecidablePred Q]

theorem slotCount_congr (h : ∀ p, p < phases → (P (t * phases + p) ↔ Q (t * phases + p))) :
    slotCount phases t P = slotCount phases t Q := by
  refine List.countP_congr fun p hp => ?_
  simp only [decide_eq_true_eq]
  exact h p (List.mem_range.mp hp)

theorem settledCount_congr (h : ∀ s, s / phases < cycles.length → (P s ↔ Q s)) :
    settledCount phases cycles P = settledCount phases cycles Q := by
  refine Finset.sum_congr rfl fun t ht => slotCount_congr fun p hp => ?_
  have hlt := Finset.mem_range.mp ht
  exact h _ (by rw [slot_div hp]; omega)

theorem settledCount_append (hlen : cycles.length = t + 1) (commands : List CommandSlot) :
    settledCount phases (cycles ++ [commands]) P =
      settledCount phases cycles P + slotCount phases t P := by
  rw [settledCount, settledCount, List.length_append, hlen, List.length_singleton]
  exact Finset.sum_range_succ _ t

theorem settledCount_add (h : ∀ s, ¬ (P s ∧ Q s)) :
    settledCount phases cycles P + settledCount phases cycles Q =
      settledCount phases cycles fun s => P s ∨ Q s := by
  have hslots : ∀ t n, Nat.count (fun p => P (t * phases + p)) n +
      Nat.count (fun p => Q (t * phases + p)) n =
        Nat.count (fun p => P (t * phases + p) ∨ Q (t * phases + p)) n := by
    intro t n
    induction n with
    | zero => rfl
    | succ n ih =>
      have hboth := h (t * phases + n)
      rw [Nat.count_succ, Nat.count_succ, Nat.count_succ, ← ih]
      by_cases hP : P (t * phases + n)
      · have hQ : ¬ Q (t * phases + n) := fun hQ => hboth ⟨hP, hQ⟩
        rw [if_pos hP, if_neg hQ, if_pos (Or.inl hP)]
        omega
      · simp only [hP, if_false, false_or]
        omega
  rw [settledCount, settledCount, ← Finset.sum_add_distrib]
  exact Finset.sum_congr rfl fun t _ => hslots t phases

end

theorem Arbiter.afterCalls_append (call : ArbiterCall) :
    Arbiter.afterCalls phases masking (calls ++ [call]) =
      Arbiter.afterCalls phases masking calls >>= fun a => a.call call := by
  simp [Arbiter.afterCalls, bind_assoc]

theorem Arbiter.Follows.call_eq_ok {b : Arbiter} {call : ArbiterCall}
    (h : a.Follows phases masking cycles) (hread : call.ticked? = none) :
    a.call call = .ok b ↔ a = b ∧ ∀ phase, call = .allows phase → phase < 64 := by
  cases call with
  | tick commands => simp [ArbiterCall.ticked?] at hread
  | output =>
    rw [Arbiter.call, Arbiter.output_ok h, ok_bind, pure_eq_ok]
    simp
  | allows phase =>
    by_cases hp : phase < 64
    · rw [Arbiter.call, Arbiter.allows, Word.bit, if_pos hp, ok_bind, pure_eq_ok]
      simp [hp]
    · rw [Arbiter.call, Arbiter.allows, Word.bit, if_neg hp]
      simp [hp, bind, Except.bind]
  | heads =>
    rw [Arbiter.call, Except.ok.injEq]
    simp

theorem tickedCycles_append (call : ArbiterCall) :
    tickedCycles (calls ++ [call]) = tickedCycles calls ++ call.ticked?.toList := by
  rw [tickedCycles, List.filterMap_append, tickedCycles]
  cases h : call.ticked? <;> simp [h]

/-- The calls that only read leave the arbiter as the ticks alone would. -/
theorem Arbiter.afterCalls_eq_ok : Arbiter.afterCalls phases masking calls = .ok a ↔
    Arbiter.after phases masking (tickedCycles calls) = .ok a ∧
      ∀ phase, .allows phase ∈ calls → phase < 64 := by
  induction calls using List.reverseRecOn generalizing a with
  | nil =>
    rw [show Arbiter.afterCalls phases masking [] = Arbiter.after phases masking [] from rfl]
    simp [tickedCycles]
  | append_singleton calls call ih =>
    rw [Arbiter.afterCalls_append, bind_eq_ok, tickedCycles_append]
    simp only [ih, List.mem_append, List.mem_singleton]
    cases hcall : call.ticked? with
    | some commands =>
      obtain rfl : call = .tick commands := by
        cases call <;> simp_all [ArbiterCall.ticked?]
      rw [Option.toList_some, Arbiter.after_singleton, bind_eq_ok]
      simp only [Arbiter.call, reduceCtorEq, or_false]
      constructor
      · rintro ⟨b, ⟨hb, hreads⟩, htick⟩
        exact ⟨⟨b, hb, htick⟩, hreads⟩
      · rintro ⟨⟨b, hb, htick⟩, hreads⟩
        exact ⟨b, ⟨hb, hreads⟩, htick⟩
    | none =>
      rw [Option.toList_none, List.append_nil]
      constructor
      · rintro ⟨b, ⟨hb, hreads⟩, hread⟩
        obtain ⟨rfl, hphase⟩ := ((Arbiter.after_follows hb).call_eq_ok hcall).mp hread
        exact ⟨hb, fun phase hm => hm.elim (hreads phase) fun he => hphase phase he.symm⟩
      · rintro ⟨ha, hreads⟩
        refine ⟨a, ⟨ha, fun phase hm => hreads phase (.inl hm)⟩, ?_⟩
        exact ((Arbiter.after_follows ha).call_eq_ok hcall).mpr
          ⟨rfl, fun phase he => hreads phase (.inr he.symm)⟩

/-- What a tick will count is what the tick before it left suppressed. -/
theorem Arbiter.dropped_ones (h : Arbiter.after phases masking cycles = .ok a)
    (hlen : cycles.length = t + 1) :
    a.dropped.ones = slotCount phases t (Suppressed phases masking cycles) := by
  have hf := Arbiter.after_follows h
  have hw := hf.room
  have htake : cycles.take (t + 1) = cycles := List.take_of_length_le (by omega)
  rw [Word.ones_eq_countP (by omega) fun _ => hf.dropped_lt, slotCount]
  refine List.countP_congr fun p hp => ?_
  have hlt := List.mem_range.mp hp
  simp only [hf.dropped_getLsbD hlen, decide_eq_true_eq, Suppressed, slot_div hlt, slot_mod hlt,
    htake, h]
  simp [hlt]

/-- One tick after the other, the count takes in what the cycle before it left suppressed. -/
theorem Arbiter.suppressed_eq (h : Arbiter.after phases masking cycles = .ok a) :
    a.suppressed = settledCount phases cycles (Suppressed phases masking cycles) := by
  induction cycles using List.reverseRecOn generalizing a with
  | nil =>
    have hmake : Arbiter.make phases masking = .ok a := by simpa [Arbiter.after] using h
    obtain ⟨hn, hw⟩ := Arbiter.make_bounds hmake
    obtain ⟨b, hb, -, hzero⟩ := Arbiter.make_follows masking hn hw
    rw [Except.ok.inj (hmake.symm.trans hb), hzero]
    rfl
  | append_singleton cycles commands ih =>
    rw [Arbiter.after_singleton, bind_eq_ok] at h
    obtain ⟨b, hb, htick⟩ := h
    have hf := Arbiter.after_follows hb
    obtain ⟨-, -, rfl⟩ := (Arbiter.tick_eq_ok hf).mp htick
    rw [show (b.next commands).suppressed = b.suppressed + b.dropped.ones from rfl, ih hb]
    cases hlen : cycles.length with
    | zero =>
      obtain rfl := List.length_eq_zero_iff.mp hlen
      rw [hf.dropped_empty]
      rfl
    | succ t =>
      have hbefore : ∀ s, s / phases < cycles.length →
          (Suppressed phases masking (cycles ++ [commands]) s ↔
            Suppressed phases masking cycles s) := fun s hs => suppressed_append_iff hs commands
      rw [settledCount_append hlen, settledCount_congr hbefore, Arbiter.dropped_ones hb hlen]
      congr 1
      exact slotCount_congr fun p hp => (hbefore _ (by rw [slot_div hp]; omega)).symm

theorem suppressed_iff_not_letThrough (h : Arbiter.after phases masking cycles = .ok a)
    (hs : ValidSlot phases cycles s) :
    Suppressed phases masking cycles s ↔ ¬ LetThrough phases masking cycles s := by
  obtain ⟨b, hb⟩ := Arbiter.after_take h (s / phases + 1)
  rw [Suppressed, LetThrough, AllowedAfter, hb]
  simp [hs]

/-- Whatever is read in between, the count is that of the suppressed commands of all cycles but
the last, where every command is suppressed or let through. -/
theorem suppressed_counted_once (hn : 3 ≤ phases) (hw : phases ≤ 32)
    (hfull : ∀ cycle ∈ tickedCycles calls, cycle.length = phases)
    (hreads : ∀ phase, .allows phase ∈ calls → phase < 64) :
    (phases * (tickedCycles calls).length < Count.limit →
      ∃ a, Arbiter.afterCalls phases masking calls = .ok a) ∧
    ∀ a, Arbiter.afterCalls phases masking calls = .ok a →
      a.suppressed = settledCount phases (tickedCycles calls)
        (Suppressed phases masking (tickedCycles calls)) ∧
      (∀ s, ValidSlot phases (tickedCycles calls) s →
        (Suppressed phases masking (tickedCycles calls) s ↔
          ¬ LetThrough phases masking (tickedCycles calls) s)) ∧
      settledCount phases (tickedCycles calls) (ValidSlot phases (tickedCycles calls)) =
        a.suppressed + settledCount phases (tickedCycles calls)
          (LetThrough phases masking (tickedCycles calls)) ∧
      (masking = false → a.suppressed = 0) := by
  refine ⟨fun hlen => ?_, fun a ha => ?_⟩
  · obtain ⟨a, ha, -⟩ := Arbiter.after_ok masking (by simpa only [lookback] using hn) (by omega)
      hfull hlen
    exact ⟨a, Arbiter.afterCalls_eq_ok.mpr ⟨ha, hreads⟩⟩
  obtain ⟨hrun, -⟩ := Arbiter.afterCalls_eq_ok.mp ha
  have hcount := Arbiter.suppressed_eq hrun
  have hsplit := fun s (hs : ValidSlot phases (tickedCycles calls) s) =>
    suppressed_iff_not_letThrough hrun hs
  refine ⟨hcount, hsplit, ?_, ?_⟩
  · rw [hcount, settledCount_add fun s hs => (hsplit s hs.1.1).mp hs.1 hs.2]
    refine settledCount_congr fun s _ => ⟨fun hs => ?_, fun hs => hs.elim (·.1) (·.1)⟩
    by_cases hthrough : LetThrough phases masking (tickedCycles calls) s
    · exact .inr hthrough
    · exact .inl ((hsplit s hs).mpr hthrough)
  · rintro rfl
    rw [hcount, settledCount_congr fun s _ => iff_false_intro not_suppressed_unmasked]
    simp [settledCount, slotCount]

/-- Two commands are dropped, one of them across a cycle, with reads in between. -/
def readBetweenTicks : List ArbiterCall :=
  [.tick (commandsOn [0, 2, 6]), .output, .allows 2, .tick (commandsOn [0]), .heads, .allows 0,
    .allows 0, .tick (commandsOn [1, 7])]

theorem two_drops_counted :
    ∃ a, Arbiter.afterCalls 8 true readBetweenTicks = .ok a ∧ a.suppressed = 2 := by
  obtain ⟨hruns, hcount⟩ := suppressed_counted_once (show 3 ≤ 8 by decide) (by decide)
    (show ∀ cycle ∈ tickedCycles readBetweenTicks, cycle.length = 8 by decide)
    (show ∀ phase, .allows phase ∈ readBetweenTicks → phase < 64 by simp [readBetweenTicks])
  obtain ⟨a, ha⟩ := hruns (by decide)
  refine ⟨a, ha, (hcount a ha).1.trans ?_⟩
  decide +kernel

end DramPhy
