import DramPhy.Waveform.Event
import Mathlib.Data.List.TakeWhile

/-! Waveforms as a reader plays them back: a stamp sets the time, and a wire keeps the
level of its last change. A waveform is extended at its end, by one stamp and the changes of
one half tick. -/

namespace DramPhy

def WaveEvent.time? : WaveEvent → Option Nat
  | stamp time => some time
  | change .. => none

def WaveEvent.levelOn (wire : Nat) : WaveEvent → Option Level
  | stamp _ => none
  | change w level => if w = wire then some level else none

/-- The level of a wire when all events have been played. -/
def lastLevel (wire : Nat) (events : List WaveEvent) : Option Level :=
  (events.filterMap (·.levelOn wire)).getLast?

/-- The level of a wire at a time, when the events up to this time have been played. -/
def levelAt (events : List WaveEvent) (wire time : Nat) : Option Level :=
  lastLevel wire (events.takeWhile fun e => e.time?.all (· ≤ time))

structure WellStamped (events : List WaveEvent) : Prop where
  increasing : (events.filterMap (·.time?)).Pairwise (· < ·)
  opened : ∀ e ∈ events.head?, ∃ time, e = .stamp time
  followed : ∀ i time, events[i]? = some (.stamp time) →
    ∃ wire level, events[i + 1]? = some (.change wire level)
  changes : ∀ i wire level, events[i]? = some (.change wire level) →
    lastLevel wire (events.take i) ≠ some level

def changeEvents (changes : List (Nat × Level)) : List WaveEvent :=
  changes.map fun c => .change c.1 c.2

/-- The events of a half tick. Nothing is stamped if nothing changes. -/
def halfTickEvents (time : Nat) (changes : List (Nat × Level)) : List WaveEvent :=
  if changes = [] then [] else .stamp time :: changeEvents changes

variable {events later : List WaveEvent} {changes : List (Nat × Level)} {wire time t k : Nat} {level : Level}

theorem lastLevel_append (wire : Nat) (events later : List WaveEvent) :
    lastLevel wire (events ++ later) = (lastLevel wire later).or (lastLevel wire events) := by
  rw [lastLevel, List.filterMap_append, List.getLast?_append]
  rfl

theorem changeEvents_time (changes : List (Nat × Level)) :
    (changeEvents changes).filterMap (·.time?) = [] := by
  rw [changeEvents, List.filterMap_map, List.filterMap_eq_nil_iff]
  exact fun _ _ => rfl

theorem lastLevel_halfTickEvents (wire time : Nat) (changes : List (Nat × Level)) :
    lastLevel wire (halfTickEvents time changes) = lastLevel wire (changeEvents changes) := by
  rw [halfTickEvents]
  split_ifs with hnone
  · rw [hnone]
    rfl
  · rfl

theorem lastLevel_of_not_mem (h : ∀ c ∈ changes, c.1 ≠ wire) :
    lastLevel wire (changeEvents changes) = none := by
  have hnone : (changeEvents changes).filterMap (·.levelOn wire) = [] := by
    rw [changeEvents, List.filterMap_map, List.filterMap_eq_nil_iff]
    exact fun c hc => if_neg (h c hc)
  rw [lastLevel, hnone]
  rfl

theorem lastLevel_of_mem (hinc : changes.Pairwise (·.1 < ·.1)) (h : (wire, level) ∈ changes) :
    lastLevel wire (changeEvents changes) = some level := by
  obtain ⟨before, after, rfl⟩ := List.append_of_mem h
  have hafter := (List.pairwise_cons.mp (List.pairwise_append.mp hinc).2.1).1
  have hnone : lastLevel wire (changeEvents after) = none :=
    lastLevel_of_not_mem fun c hc => (Nat.ne_of_lt (hafter c hc)).symm
  have hsplit : changeEvents (before ++ (wire, level) :: after) =
      changeEvents before ++ ([.change wire level] ++ changeEvents after) := by
    simp [changeEvents]
  have hown : lastLevel wire [.change wire level] = some level := by
    simp [lastLevel, WaveEvent.levelOn]
  rw [hsplit, lastLevel_append, lastLevel_append, hnone, hown]
  rfl

theorem stamp_mem_halfTickEvents (h : .stamp t ∈ halfTickEvents time changes) : t = time := by
  rw [halfTickEvents] at h
  split_ifs at h
  · cases h
  · rcases List.mem_cons.mp h with hs | hc
    · exact WaveEvent.stamp.inj hs
    · obtain ⟨_, -, hc⟩ := List.mem_map.mp hc
      cases hc

theorem stamp_getElem? (h : (WaveEvent.stamp time :: changeEvents changes)[k]? = some (.stamp t)) :
    k = 0 := by
  cases k with
  | zero => rfl
  | succ k =>
    rw [List.getElem?_cons_succ, changeEvents, List.getElem?_map, Option.map_eq_some_iff] at h
    obtain ⟨_, -, hc⟩ := h
    cases hc

theorem change_getElem?
    (h : (WaveEvent.stamp time :: changeEvents changes)[k]? = some (.change wire level)) :
    ∃ j, k = j + 1 ∧ changes[j]? = some (wire, level) := by
  cases k with
  | zero => cases h
  | succ j =>
    rw [List.getElem?_cons_succ, changeEvents, List.getElem?_map, Option.map_eq_some_iff] at h
    obtain ⟨c, hc, heq⟩ := h
    obtain ⟨rfl, rfl⟩ := WaveEvent.change.inj heq
    exact ⟨j, rfl, hc⟩

/-- No wire changes twice in a half tick. -/
theorem lastLevel_take (hinc : changes.Pairwise (·.1 < ·.1)) (h : changes[k]? = some (wire, level)) :
    lastLevel wire (changeEvents (changes.take k)) = none := by
  refine lastLevel_of_not_mem fun c hc => ?_
  obtain ⟨hk, hget⟩ := List.getElem?_eq_some_iff.mp h
  obtain ⟨j, hj, rfl⟩ := List.mem_take_iff_getElem.mp hc
  have hlt := List.pairwise_iff_getElem.mp hinc j k (by omega) hk (by omega)
  rw [hget] at hlt
  exact Nat.ne_of_lt hlt

/-- What comes later does not change what has been played. -/
theorem levelAt_append (events : List WaveEvent) (wire : Nat) (ht : t < time)
    (changes : List (Nat × Level)) :
    levelAt (events ++ halfTickEvents time changes) wire t = levelAt events wire t := by
  rw [halfTickEvents]
  split_ifs with hnone
  · rw [List.append_nil]
  · have hstop : (events ++ .stamp time :: changeEvents changes).takeWhile
        (fun e => e.time?.all (· ≤ t)) = events.takeWhile fun e => e.time?.all (· ≤ t) := by
      induction events with
      | nil => simp [WaveEvent.time?, ht]
      | cons e events ih => simp only [List.cons_append, List.takeWhile_cons, ih]
    rw [levelAt, hstop, levelAt]

theorem levelAt_all (hbefore : ∀ s, .stamp s ∈ events → s < time) (wire : Nat) (ht : time ≤ t + 1) :
    levelAt events wire t = lastLevel wire events := by
  have hall : ∀ e ∈ events, (e.time?.all (· ≤ t)) = true := by
    intro e he
    cases e with
    | stamp s =>
      have hs := hbefore s he
      simp only [WaveEvent.time?, Option.all_some, decide_eq_true_iff]
      omega
    | change => rfl
  rw [levelAt, List.takeWhile_eq_self_iff.mpr hall]

theorem WellStamped.nil : WellStamped [] :=
  ⟨List.Pairwise.nil, by simp, by simp, by simp⟩

theorem WellStamped.append (h : WellStamped events) (hbefore : ∀ s, .stamp s ∈ events → s < time)
    (hinc : changes.Pairwise (·.1 < ·.1))
    (hnew : ∀ c ∈ changes, lastLevel c.1 events ≠ some c.2) :
    WellStamped (events ++ halfTickEvents time changes) := by
  rw [halfTickEvents]
  split_ifs with hnone
  · rwa [List.append_nil]
  -- the new events are one stamp and the changes, so an index past the old ones tells which
  refine ⟨?_, ?_, fun i t hi => ?_, fun i wire level hi => ?_⟩
  · have hblock : (WaveEvent.stamp time :: changeEvents changes).filterMap (·.time?) = [time] := by
      rw [List.filterMap_cons, changeEvents_time]
      rfl
    rw [List.filterMap_append, hblock]
    refine List.pairwise_append.mpr ⟨h.increasing, List.pairwise_singleton .., fun s hs x hx => ?_⟩
    obtain ⟨e, he, hs⟩ := List.mem_filterMap.mp hs
    rw [List.mem_singleton.mp hx]
    cases e with
    | stamp t =>
      obtain rfl := Option.some.inj hs
      exact hbefore t he
    | change => cases hs
  · cases events with
    | nil =>
      rintro e he
      exact ⟨time, (Option.some.inj he).symm⟩
    | cons e events => exact h.opened
  · rcases Nat.lt_or_ge i events.length with hlt | hge
    · rw [List.getElem?_append_left hlt] at hi
      obtain ⟨wire, level, hnext⟩ := h.followed i t hi
      have hlt' := (List.getElem?_eq_some_iff.mp hnext).1
      exact ⟨wire, level, by rwa [List.getElem?_append_left hlt']⟩
    · rw [List.getElem?_append_right hge] at hi
      obtain ⟨c, rest, rfl⟩ := List.exists_cons_of_ne_nil hnone
      refine ⟨c.1, c.2, ?_⟩
      rw [List.getElem?_append_right (by omega), Nat.sub_add_comm hge, stamp_getElem? hi]
      rfl
  · rcases Nat.lt_or_ge i events.length with hlt | hge
    · rw [List.getElem?_append_left hlt] at hi
      rw [List.take_append_of_le_length (Nat.le_of_lt hlt)]
      exact h.changes i wire level hi
    · obtain ⟨k, rfl⟩ := Nat.exists_eq_add_of_le hge
      rw [List.getElem?_append_right hge, Nat.add_sub_cancel_left] at hi
      obtain ⟨j, rfl, hj⟩ := change_getElem? hi
      have hown : lastLevel wire (.stamp time :: changeEvents (changes.take j)) = none :=
        lastLevel_take hinc hj
      have htake : (.stamp time :: changeEvents changes).take (j + 1) =
          .stamp time :: changeEvents (changes.take j) := by
        rw [List.take_succ_cons, changeEvents, changeEvents, List.map_take]
      rw [List.take_length_add_append, htake, lastLevel_append, hown]
      exact hnew _ (List.mem_of_getElem? hj)

end DramPhy
