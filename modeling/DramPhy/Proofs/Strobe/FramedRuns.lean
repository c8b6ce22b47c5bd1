import DramPhy.Proofs.Strobe.FrameHistory
import Mathlib.Algebra.Group.Nat.Defs

/-! The frames around the writes of a sequence of enables. Every run of write cycles has a
preamble before it and a postamble after it, and the strobe is driven on it and on these
two cycles. -/

namespace DramPhy

/-- The frames of a sequence of cycles, each with its write enable and whether it levels. -/
def WriteFraming.frames (f : WriteFraming) : List (Bool × Bool) → Checked (List StrobeFrame)
  | [] => .ok []
  | (enable, leveling) :: cycles => do
    let frame ← f.frame enable leveling
    let later ← (f.tick enable).frames cycles
    return frame :: later

/-- The frames that a new framing gives. -/
def framesOf (tap : Nat) (cycles : List (Bool × Bool)) : Checked (List StrobeFrame) := do
  let f ← WriteFraming.make tap
  f.frames cycles

/-- Whether a write was enabled `d` cycles before cycle `t`, never before the first one. -/
def enabledBefore (enable : Nat → Bool) (t d : Nat) : Bool := decide (d ≤ t) && enable (t - d)

/-- A longest run among the first `n` cycles, from `first` up to the one before `last`. -/
structure LongestRun (n : Nat) (on : Nat → Bool) (first last : Nat) : Prop where
  nonempty : first < last
  le : last ≤ n
  high : ∀ t, first ≤ t → t < last → on t = true
  starts : ∀ t, first = t + 1 → on t = false
  ends : last < n → on last = false

variable {tap n t first last : Nat} {on enable leveling : Nat → Bool} {frames : Nat → StrobeFrame}

theorem exists_run_start (h : on t = true) : ∃ first, first ≤ t ∧
    (∀ s, first ≤ s → s ≤ t → on s = true) ∧ ∀ s, first = s + 1 → on s = false := by
  induction t with
  | zero =>
    refine ⟨0, Nat.le_refl 0, fun s _ hs => ?_, fun s hs => ?_⟩
    · rwa [Nat.le_zero.mp hs]
    · contradiction
  | succ t ih =>
    by_cases hbefore : on t = true
    · obtain ⟨first, hle, hon, hstart⟩ := ih hbefore
      refine ⟨first, by omega, fun s hfirst hs => ?_, hstart⟩
      rcases Nat.lt_or_eq_of_le hs with hlt | rfl
      · exact hon s hfirst (Nat.le_of_lt_succ hlt)
      · exact h
    · refine ⟨t + 1, Nat.le_refl _, fun s hfirst hs => ?_, fun s hs => ?_⟩
      · rwa [Nat.le_antisymm hs hfirst]
      · rw [← Nat.succ.inj hs, Bool.eq_false_iff]
        exact hbefore

theorem exists_run_end (h : on t = true) (ht : t < n) : ∃ last, t < last ∧ last ≤ n ∧
    (∀ s, t ≤ s → s < last → on s = true) ∧ (last < n → on last = false) := by
  induction hrest : n - t generalizing t with
  | zero => omega
  | succ rest ih =>
    by_cases hafter : t + 1 < n ∧ on (t + 1) = true
    · obtain ⟨last, hlt, hle, hon, hend⟩ := ih hafter.2 hafter.1 (by omega)
      refine ⟨last, by omega, hle, fun s hs hlast => ?_, hend⟩
      rcases Nat.lt_or_eq_of_le hs with hlt | rfl
      · exact hon s hlt hlast
      · exact h
    · refine ⟨t + 1, Nat.lt_succ_self t, ht, fun s hs hlast => ?_, fun hlt => ?_⟩
      · rwa [show s = t by omega]
      · rw [Bool.eq_false_iff]
        exact fun hon => hafter ⟨hlt, hon⟩

theorem exists_longestRun (h : on t = true) (ht : t < n) :
    ∃ first last, LongestRun n on first last ∧ first ≤ t ∧ t < last := by
  obtain ⟨first, hfirst, hbefore, hstart⟩ := exists_run_start h
  obtain ⟨last, hlast, hle, hafter, hend⟩ := exists_run_end h ht
  refine ⟨first, last, ⟨by omega, hle, fun s hs hlt => ?_, hstart, hend⟩, hfirst, hlast⟩
  by_cases hst : s ≤ t
  · exact hbefore s hs hst
  · exact hafter s (by omega) hlt

/-- Next to a run is where one of the cycles around is on. -/
theorem exists_longestRun_beside_iff (on : Nat → Bool) (ht : t + 1 < n) :
    (∃ first last, LongestRun n on first last ∧ first ≤ t + 1 ∧ t ≤ last) ↔
      on t = true ∨ on (t + 1) = true ∨ ∃ s, t = s + 1 ∧ on s = true := by
  constructor
  · rintro ⟨first, last, hrun, hfirst, hlast⟩
    have hnonempty := hrun.nonempty
    rcases Nat.lt_trichotomy t last with hlt | rfl | hgt
    · by_cases hinside : first ≤ t
      · exact .inl (hrun.high t hinside hlt)
      · exact .inr (.inl (hrun.high (t + 1) hfirst (by omega)))
    · obtain ⟨s, rfl⟩ := Nat.exists_eq_add_of_le' (Nat.one_le_of_lt hnonempty)
      exact .inr (.inr ⟨s, rfl, hrun.high s (by omega) (by omega)⟩)
    · omega
  · rintro (hon | hon | ⟨s, rfl, hon⟩)
    · obtain ⟨first, last, hrun, hfirst, hlast⟩ := exists_longestRun hon (show t < n by omega)
      exact ⟨first, last, hrun, by omega, by omega⟩
    · obtain ⟨first, last, hrun, hfirst, hlast⟩ := exists_longestRun hon ht
      exact ⟨first, last, hrun, by omega, by omega⟩
    · obtain ⟨first, last, hrun, hfirst, hlast⟩ := exists_longestRun hon (show s < n by omega)
      exact ⟨first, last, hrun, by omega, by omega⟩

/-- Between two runs is where both cycles around are on and this one is not. -/
theorem exists_longestRun_between_iff (on : Nat → Bool) (ht : t + 1 < n) :
    (∃ first last, LongestRun n on first t ∧ LongestRun n on (t + 1) last) ↔
      on t = false ∧ on (t + 1) = true ∧ ∃ s, t = s + 1 ∧ on s = true := by
  constructor
  · rintro ⟨first, last, hbefore, hafter⟩
    have hnonempty := hbefore.nonempty
    obtain ⟨s, rfl⟩ := Nat.exists_eq_add_of_le' (Nat.one_le_of_lt hnonempty)
    exact ⟨hafter.starts _ rfl, hafter.high _ (Nat.le_refl _) hafter.nonempty, s, rfl,
      hbefore.high s (by omega) (by omega)⟩
  · rintro ⟨hoff, hnext, s, rfl, hon⟩
    obtain ⟨first, last, hbefore, hfirst, hlast⟩ := exists_longestRun hon (show s < n by omega)
    obtain ⟨first', last', hafter, hfirst', hlast'⟩ := exists_longestRun hnext ht
    obtain rfl : last = s + 1 := by
      by_contra hne
      rw [hbefore.high (s + 1) (by omega) (by omega)] at hoff
      contradiction
    obtain rfl : first' = s + 1 + 1 := by
      by_contra hne
      rw [hafter.high (s + 1) (by omega) (by omega)] at hoff
      contradiction
    exact ⟨first, last', hbefore, hafter⟩

/-- Frame `t` of a sequence of write enables. -/
def frameAt (tap : Nat) (enable leveling : Nat → Bool) (t : Nat) : StrobeFrame :=
  writeFrame tap ((List.range (t + 1)).map enable) (leveling t)

theorem ago_range (enable : Nat → Bool) (t d : Nat) :
    ago false ((List.range (t + 1)).map enable) d = enabledBefore enable t d := by
  have hlen : ((List.range (t + 1)).map enable).length = t + 1 := by simp
  rw [enabledBefore]
  by_cases hd : d ≤ t
  · rw [ago_of_lt (by omega), List.getElem_map, List.getElem_range, hlen, Nat.add_sub_cancel,
      decide_eq_true hd, Bool.true_and]
  · rw [ago_of_le (by omega), decide_eq_false hd, Bool.false_and]

section

variable (h : (tap : Int) + 1 < Offset.limit)

include h

theorem WriteFraming.fed_frames (start n : Nat) :
    (WriteFraming.fed tap ((List.range start).map enable)).frames
        ((List.range' start n).map fun t => (enable t, leveling t)) =
      .ok ((List.range' start n).map (frameAt tap enable leveling)) := by
  induction n generalizing start with
  | zero => rfl
  | succ n ih =>
    have hnext : (List.range start).map enable ++ [enable start] =
        (List.range (start + 1)).map enable := by
      rw [List.range_succ, List.map_append, List.map_singleton]
    rw [List.range'_succ, List.map_cons, List.map_cons, WriteFraming.frames,
      WriteFraming.fed_frame h, ok_bind, WriteFraming.fed_tick, hnext, ih, ok_bind]
    rfl

theorem framesOf_ok (n : Nat) :
    framesOf tap ((List.range n).map fun t => (enable t, leveling t)) =
      .ok ((List.range n).map (frameAt tap enable leveling)) := by
  have hlimit : tap + 2 < Count.limit := by
    simp only [Offset.limit] at h
    simp only [Count.limit]
    omega
  rw [framesOf, WriteFraming.make_ok hlimit, ok_bind, List.range_eq_range']
  exact WriteFraming.fed_frames h 0 n

end

section

variable (tap t : Nat) (enable leveling : Nat → Bool)

theorem frameAt_dqOe :
    (frameAt tap enable leveling t).dqOe = enabledBefore enable t (tap + 1) :=
  ago_range enable t (tap + 1)

theorem frameAt_preamble : (frameAt tap enable leveling t).preamble =
    (enabledBefore enable t tap && !enabledBefore enable t (tap + 1)) := by
  rw [← ago_range, ← ago_range]
  rfl

theorem frameAt_postamble : (frameAt tap enable leveling t).postamble =
    (enabledBefore enable t (tap + 2) && !enabledBefore enable t (tap + 1)) := by
  rw [← ago_range, ← ago_range]
  rfl

theorem frameAt_preamble_iff : (frameAt tap enable leveling t).preamble = true ↔
    (frameAt tap enable leveling t).dqOe = false ∧
      (frameAt tap enable leveling (t + 1)).dqOe = true := by
  have hnext : enabledBefore enable (t + 1) (tap + 1) = enabledBefore enable t tap := by
    rw [enabledBefore, enabledBefore, Nat.add_sub_add_right]
    congr 1
    exact decide_eq_decide.mpr (by omega)
  rw [frameAt_preamble, frameAt_dqOe, frameAt_dqOe, hnext, Bool.and_eq_true, Bool.not_eq_true',
    and_comm]

theorem frameAt_postamble_iff : (frameAt tap enable leveling t).postamble = true ↔
    (frameAt tap enable leveling t).dqOe = false ∧
      ∃ s, t = s + 1 ∧ (frameAt tap enable leveling s).dqOe = true := by
  rw [frameAt_postamble, frameAt_dqOe, Bool.and_eq_true, Bool.not_eq_true', and_comm]
  refine and_congr_right fun _ => ?_
  cases t with
  | zero => simp [enabledBefore]
  | succ t =>
    have hbefore : enabledBefore enable (t + 1) (tap + 2) = enabledBefore enable t (tap + 1) := by
      rw [enabledBefore, enabledBefore, Nat.add_sub_add_right t 1 (tap + 1)]
      congr 1
      exact decide_eq_decide.mpr (by omega)
    simp only [hbefore, frameAt_dqOe, Nat.add_right_cancel_iff, exists_eq_left']

theorem frameAt_dqsOe_iff (h : leveling t = false) :
    (frameAt tap enable leveling t).dqsOe = true ↔
      (frameAt tap enable leveling t).dqOe = true ∨
        (frameAt tap enable leveling (t + 1)).dqOe = true ∨
          ∃ s, t = s + 1 ∧ (frameAt tap enable leveling s).dqOe = true := by
  have hframe : (frameAt tap enable leveling t).dqsOe =
      (leveling t || (frameAt tap enable leveling t).preamble ||
        (frameAt tap enable leveling t).dqOe || (frameAt tap enable leveling t).postamble) := rfl
  rw [hframe, h, Bool.false_or, Bool.or_eq_true, Bool.or_eq_true, frameAt_preamble_iff,
    frameAt_postamble_iff]
  cases hdq : (frameAt tap enable leveling t).dqOe <;> simp

end

/-- What the frames of a sequence of write enables show. -/
structure FramedWrites (tap : Nat) (enable leveling : Nat → Bool) (frames : Nat → StrobeFrame) :
    Prop where
  dqOe : ∀ t, (frames t).dqOe = enabledBefore enable t (tap + 1)
  preamble : ∀ t, (frames t).preamble =
    (enabledBefore enable t tap && !enabledBefore enable t (tap + 1))
  postamble : ∀ t, (frames t).postamble =
    (enabledBefore enable t (tap + 2) && !enabledBefore enable t (tap + 1))
  dqsOe : ∀ t, (frames t).dqsOe =
    (leveling t || (frames t).preamble || (frames t).dqOe || (frames t).postamble)
  framed : ∀ n first last, LongestRun n (fun t => (frames t).dqOe) first last →
    (∃ t, first = t + 1 ∧ (frames t).preamble = true) ∧
      (last < n → (frames last).postamble = true)
  apart : ∀ t, (frames t).dqOe = true →
    (frames t).preamble = false ∧ (frames t).postamble = false
  widened : ∀ n t, t + 1 < n → leveling t = false → ((frames t).dqsOe = true ↔
    ∃ first last, LongestRun n (fun t => (frames t).dqOe) first last ∧ first ≤ t + 1 ∧ t ≤ last)
  meet : ∀ n t, t + 1 < n → ((frames t).preamble = true ∧ (frames t).postamble = true ↔
    ∃ first last, LongestRun n (fun t => (frames t).dqOe) first t ∧
      LongestRun n (fun t => (frames t).dqOe) (t + 1) last)
  meetWord : ∀ t (patterns : StrobePatterns) strobe,
    (frames t).preamble = true → (frames t).postamble = true →
    patterns.word (frames t) false strobe =
      if patterns.swapped then patterns.preamble else patterns.postamble

theorem LongestRun.framed
    (h : LongestRun n (fun t => (frameAt tap enable leveling t).dqOe) first last) :
    (∃ t, first = t + 1 ∧ (frameAt tap enable leveling t).preamble = true) ∧
      (last < n → (frameAt tap enable leveling last).postamble = true) := by
  have hnonempty := h.nonempty
  constructor
  · cases first with
    | zero =>
      have hzero := h.high 0 (Nat.le_refl 0) hnonempty
      rw [frameAt_dqOe, enabledBefore] at hzero
      simp at hzero
    | succ t =>
      refine ⟨t, rfl, (frameAt_preamble_iff tap t enable leveling).mpr ⟨h.starts t rfl, ?_⟩⟩
      exact h.high (t + 1) (Nat.le_refl _) hnonempty
  · intro hlast
    rw [frameAt_postamble_iff]
    obtain ⟨s, rfl⟩ := Nat.exists_eq_add_of_le' (Nat.one_le_of_lt hnonempty)
    exact ⟨h.ends hlast, s, rfl, h.high s (by omega) (by omega)⟩

/-- Any write enables are framed: a preamble before every run of write cycles, a postamble
after it, and the strobe driven from the one to the other. -/
theorem writes_are_framed (enable leveling : Nat → Bool) (h : tap < 2 ^ 62) :
    ∃ frames : Nat → StrobeFrame,
      (∀ n, framesOf tap ((List.range n).map fun t => (enable t, leveling t)) =
        .ok ((List.range n).map frames)) ∧
      FramedWrites tap enable leveling frames := by
  have hlimit : (tap : Int) + 1 < Offset.limit := by
    simp only [Offset.limit]
    omega
  refine ⟨frameAt tap enable leveling, framesOf_ok hlimit, ?_⟩
  constructor
  case dqOe => exact fun t => frameAt_dqOe tap t enable leveling
  case preamble => exact fun t => frameAt_preamble tap t enable leveling
  case postamble => exact fun t => frameAt_postamble tap t enable leveling
  case dqsOe => exact fun t => rfl
  case framed => exact fun n first last hrun => hrun.framed
  case apart =>
    intro t hdq
    rw [frameAt_dqOe] at hdq
    rw [frameAt_preamble, frameAt_postamble, hdq, Bool.not_true, Bool.and_false, Bool.and_false]
    exact ⟨rfl, rfl⟩
  case widened =>
    intro n t ht hleveling
    rw [frameAt_dqsOe_iff tap t enable leveling hleveling]
    exact (exists_longestRun_beside_iff (fun t => (frameAt tap enable leveling t).dqOe) ht).symm
  case meet =>
    intro n t ht
    rw [exists_longestRun_between_iff _ ht, frameAt_preamble_iff, frameAt_postamble_iff]
    constructor
    · rintro ⟨⟨hoff, hnext⟩, -, hbefore⟩
      exact ⟨hoff, hnext, hbefore⟩
    · rintro ⟨hoff, hnext, hbefore⟩
      exact ⟨⟨hoff, hnext⟩, hoff, hbefore⟩
  case meetWord =>
    intro t patterns strobe hpre hpost
    rw [StrobePatterns.word, if_neg Bool.false_ne_true, if_pos hpost, StrobePatterns.afterData]

/-- Two writes with one cycle between them share that cycle's strobe. -/
theorem gap_of_one_cycle_framed : ∃ frames : Nat → StrobeFrame,
    framesOf 0 [(false, false), (true, false), (false, false), (true, false), (false, false)] =
      .ok ((List.range 5).map frames) ∧
    (frames 2).dqOe = true ∧ (frames 3).preamble = true ∧ (frames 3).postamble = true ∧
    (frames 4).dqOe = true ∧ StrobePatterns.standard.word (frames 3) false false = 1 := by
  obtain ⟨frames, hframes, h⟩ :=
    writes_are_framed (fun t => t == 1 || t == 3) (fun _ => false) (show 0 < 2 ^ 62 by decide)
  have hpre : (frames 3).preamble = true := (h.preamble 3).trans (by decide)
  have hpost : (frames 3).postamble = true := (h.postamble 3).trans (by decide)
  exact ⟨frames, hframes 5, (h.dqOe 2).trans (by decide), hpre, hpost, (h.dqOe 4).trans (by decide),
    h.meetWord 3 StrobePatterns.standard false hpre hpost⟩

end DramPhy
