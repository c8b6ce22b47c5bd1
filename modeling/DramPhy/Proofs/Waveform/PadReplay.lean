import DramPhy.Proofs.Pad.LaneWords
import DramPhy.Proofs.Waveform.Playback
import DramPhy.Waveform.Trace
import Mathlib.Algebra.GroupWithZero.Nat

/-! A waveform played back shows the pads that were recorded. Recording goes half tick by
half tick; a trace remembers for each wire the level that a reader of the events so far
would see, so leaving out the wires that keep their level loses nothing. -/

namespace DramPhy

def PadOutput.shown (out : PadOutput) (lane : PadLane) (halfTick : Nat) : Level :=
  if out.driven lane then
    if (out.word lane).getLsbD (lane.position halfTick) then .high else .low
  else
    .floating

def Wire.seen (w : Wire) (out : PadOutput) (halfTick : Nat) : Wire :=
  { w with last := some (out.shown w.lane halfTick) }

def wireChanges (out : PadOutput) (halfTick n : Nat) : List Wire → List (Nat × Level)
  | [] => []
  | w :: ws =>
    if w.last = some (out.shown w.lane halfTick) then wireChanges out halfTick (n + 1) ws
    else (n, out.shown w.lane halfTick) :: wireChanges out halfTick (n + 1) ws

def Readable (lanes : List PadLane) (out : PadOutput) (halfTick : Nat) : Prop :=
  ∀ lane ∈ lanes, out.level lane halfTick = .ok (out.shown lane halfTick)

def Trace.tick (t : Trace) (frame : PadOutput × Nat) : Recording Trace := do
  let wires ← recordWires frame.1 frame.2 t.time false 0 t.wires
  let time ← Recording.ofChecked (Count.add t.time 1)
  return ⟨wires, time⟩

def Trace.emitted (t : Trace) (frame : PadOutput × Nat) : List WaveEvent :=
  halfTickEvents t.time (wireChanges frame.1 frame.2 0 t.wires)

def Trace.next (t : Trace) (frame : PadOutput × Nat) : Trace :=
  ⟨t.wires.map (·.seen frame.1 frame.2), t.time + 1⟩

def PadOutput.frames (out : PadOutput) : List (PadOutput × Nat) :=
  (List.range (2 * out.phases)).map fun halfTick => (out, halfTick)

def recordAll (template : PadOutput) (outputs : List PadOutput) : Recording Trace :=
  outputs.foldlM Trace.record (Trace.start template)

def halfTicks (outputs : List PadOutput) : Nat := (outputs.map fun out => 2 * out.phases).sum

variable {out template : PadOutput} {outputs : List PadOutput} {lane : PadLane} {lanes : List PadLane}
  {halfTick n k : Nat} {ws : List Wire} {w : Wire} {t : Trace} {events : List WaveEvent}
  {frame : PadOutput × Nat} {frames : List (PadOutput × Nat)} {c : Nat × Level}

theorem Recording.ofChecked_bind {α β : Type} (a : α) (f : α → Recording β) :
    Recording.ofChecked (.ok a) >>= f = f a := rfl

theorem Recording.mk_bind {α β : Type} (events : List WaveEvent) (a : α) (f : α → Recording β) :
    (⟨events, .ok a⟩ : Recording α) >>= f = ⟨events ++ (f a).events, (f a).result⟩ := rfl

instance : LawfulMonad Recording := by
  refine LawfulMonad.mk' Recording (fun x => ?_) (fun _ _ => rfl) fun x f g => ?_
  · obtain ⟨events, _ | _⟩ := x <;> simp [Functor.map]
  · obtain ⟨events, _ | a⟩ := x
    · rfl
    · rcases hf : f a with ⟨later, _ | b⟩ <;> simp [bind, hf]

theorem PadOutput.level_ok (h : lane ∈ out.lanes) (hpos : lane.position halfTick < 64) :
    out.level lane halfTick = .ok (out.shown lane halfTick) := by
  rw [PadOutput.level, PadOutput.lane_word h, ok_bind, Word.bit, if_pos hpos, ok_bind]
  rfl

theorem mem_wireChanges : c ∈ wireChanges out halfTick n ws ↔
    ∃ k w, ws[k]? = some w ∧ c = (n + k, out.shown w.lane halfTick) ∧ w.last ≠ some c.2 := by
  induction ws generalizing n with
  | nil => simp [wireChanges]
  | cons w ws ih =>
    have hrest : (∃ k v, ws[k]? = some v ∧ c = (n + 1 + k, out.shown v.lane halfTick) ∧
        v.last ≠ some c.2) ↔ ∃ k v, (w :: ws)[k + 1]? = some v ∧
          c = (n + (k + 1), out.shown v.lane halfTick) ∧ v.last ≠ some c.2 := by
      simp only [List.getElem?_cons_succ, Nat.add_assoc, Nat.add_comm 1]
    rw [wireChanges]
    split_ifs with hsame
    · rw [ih, hrest]
      constructor
      · rintro ⟨k, hk⟩
        exact ⟨k + 1, hk⟩
      · rintro ⟨_ | k, v, hv, rfl, hlast⟩
        · obtain rfl := Option.some.inj hv
          exact absurd hsame hlast
        · exact ⟨k, v, hv, rfl, hlast⟩
    · rw [List.mem_cons, ih, hrest]
      constructor
      · rintro (rfl | ⟨k, hk⟩)
        · exact ⟨0, w, rfl, rfl, hsame⟩
        · exact ⟨k + 1, hk⟩
      · rintro ⟨_ | k, v, hv, rfl, hlast⟩
        · obtain rfl := Option.some.inj hv
          exact .inl rfl
        · exact .inr ⟨k, v, hv, rfl, hlast⟩

theorem wireChanges_increasing (out : PadOutput) (halfTick n : Nat) (ws : List Wire) :
    (wireChanges out halfTick n ws).Pairwise (·.1 < ·.1) := by
  induction ws generalizing n with
  | nil => exact List.Pairwise.nil
  | cons w ws ih =>
    rw [wireChanges]
    split_ifs
    · exact ih (n + 1)
    · refine List.pairwise_cons.mpr ⟨fun c hc => ?_, ih (n + 1)⟩
      obtain ⟨k, _, -, rfl, -⟩ := mem_wireChanges.mp hc
      exact Nat.lt_of_lt_of_le (Nat.lt_succ_self n) (Nat.le_add_right ..)

theorem recordWires_eq (h : Readable (ws.map (·.lane)) out halfTick) (time : Nat) (stamped : Bool) :
    recordWires out halfTick time stamped n ws =
      ⟨if stamped then changeEvents (wireChanges out halfTick n ws)
        else halfTickEvents time (wireChanges out halfTick n ws),
        .ok (ws.map (·.seen out halfTick))⟩ := by
  induction ws generalizing n stamped with
  | nil => cases stamped <;> rfl
  | cons w ws ih =>
    have hw := h w.lane List.mem_cons_self
    have hws := fun n stamped => ih (n := n) (fun lane hm => h lane (List.mem_cons_of_mem _ hm)) stamped
    rw [recordWires, hw, wireChanges, Recording.ofChecked_bind, List.map_cons]
    by_cases hsame : w.last = some (out.shown w.lane halfTick)
    -- a wire that keeps its level emits nothing, and it remembers what it did
    · have hseen : w.seen out halfTick = w := by rw [Wire.seen, ← hsame]
      rw [if_pos hsame, if_pos hsame, hws, Recording.mk_bind, hseen]
      exact congrArg (Recording.mk · _) (List.append_nil _)
    · rw [if_neg hsame, if_neg hsame]
      cases stamped <;>
        simp [hws, Recording.emit, Recording.mk_bind, halfTickEvents, changeEvents, Wire.seen, pure]

theorem Trace.tick_eq (h : Readable (t.wires.map (·.lane)) frame.1 frame.2) :
    t.tick frame = ⟨t.emitted frame, (Count.add t.time 1).map fun _ => t.next frame⟩ := by
  rw [Trace.tick, recordWires_eq h, Recording.mk_bind]
  cases hadd : Count.add t.time 1 with
  | error => simp [Recording.ofChecked, bind, Except.map, Trace.emitted]
  | ok time =>
    obtain ⟨-, rfl⟩ := Count.add_eq_ok.mp hadd
    simp [Recording.ofChecked, bind, pure, Except.map, Trace.emitted, Trace.next]

theorem recordHalfTicks_eq (out : PadOutput) (halfTick left : Nat) (t : Trace) :
    recordHalfTicks out halfTick left t =
      ((List.range' halfTick left).map fun halfTick => (out, halfTick)).foldlM Trace.tick t := by
  induction left generalizing halfTick t with
  | zero => rfl
  | succ left ih =>
    simp only [recordHalfTicks, ih, List.range'_succ, List.map_cons, List.foldlM_cons, Trace.tick,
      bind_assoc, pure_bind]

theorem Trace.record_eq (hphases : out.phases ≤ 32) (t : Trace) :
    t.record out = out.frames.foldlM Trace.tick t := by
  have hcount : Count.mul 2 out.phases = .ok (2 * out.phases) :=
    Count.mul_eq_ok.mpr ⟨by simp only [Count.limit]; omega, rfl⟩
  rw [Trace.record, hcount, Recording.ofChecked_bind, recordHalfTicks_eq, PadOutput.frames,
    List.range_eq_range']

theorem foldlM_record_eq (h : ∀ out ∈ outputs, out.phases ≤ 32) (t : Trace) :
    outputs.foldlM Trace.record t = (outputs.flatMap PadOutput.frames).foldlM Trace.tick t := by
  induction outputs generalizing t with
  | nil => rfl
  | cons out outputs ih =>
    have hrest := fun t => ih (fun o ho => h o (List.mem_cons_of_mem _ ho)) t
    simp only [List.foldlM_cons, List.flatMap_cons, List.foldlM_append,
      Trace.record_eq (h out List.mem_cons_self), hrest]

/-- A trace remembers what a reader of the events sees after as many half ticks. -/
structure Trace.Follows (t : Trace) (events : List WaveEvent) (lanes : List PadLane) (length : Nat) :
    Prop where
  time_eq : t.time = length
  lanes_eq : t.wires.map (·.lane) = lanes
  last_eq : ∀ n w, t.wires[n]? = some w → w.last = lastLevel n events

/-- A waveform shows every wire in every half tick. -/
structure Depicts (events : List WaveEvent) (lanes : List PadLane) (frames : List (PadOutput × Nat)) :
    Prop where
  stamped : WellStamped events
  before : ∀ s, .stamp s ∈ events → s < frames.length
  levels : ∀ time frame n lane, frames[time]? = some frame → lanes[n]? = some lane →
    levelAt events n time = some (frame.1.shown lane frame.2)

section

variable {length : Nat} (ht : t.Follows events lanes length)

include ht

theorem Trace.Follows.lastLevel_emitted (hw : t.wires[k]? = some w) :
    lastLevel k (events ++ t.emitted frame) = some (frame.1.shown w.lane frame.2) := by
  rw [lastLevel_append, Trace.emitted, lastLevel_halfTickEvents]
  by_cases hsame : w.last = some (frame.1.shown w.lane frame.2)
  · have hnone : lastLevel k (changeEvents (wireChanges frame.1 frame.2 0 t.wires)) = none := by
      refine lastLevel_of_not_mem fun c hc => ?_
      obtain ⟨j, v, hv, rfl, hchanged⟩ := mem_wireChanges.mp hc
      rintro rfl
      rw [Nat.zero_add] at hw
      obtain rfl := Option.some.inj (hw.symm.trans hv)
      exact hchanged hsame
    rw [hnone, Option.none_or, ← ht.last_eq k w hw, hsame]
  · have hmem : (k, frame.1.shown w.lane frame.2) ∈ wireChanges frame.1 frame.2 0 t.wires :=
      mem_wireChanges.mpr ⟨k, w, hw, by rw [Nat.zero_add], hsame⟩
    rw [lastLevel_of_mem (wireChanges_increasing ..) hmem, Option.some_or]

theorem Trace.Follows.next (frame : PadOutput × Nat) :
    (t.next frame).Follows (events ++ t.emitted frame) lanes (length + 1) := by
  refine ⟨congrArg (· + 1) ht.time_eq, ?_, fun n w hn => ?_⟩
  · rw [← ht.lanes_eq, Trace.next, List.map_map]
    rfl
  · rw [Trace.next, List.getElem?_map, Option.map_eq_some_iff] at hn
    obtain ⟨v, hv, rfl⟩ := hn
    exact (ht.lastLevel_emitted hv).symm

end

theorem Depicts.next (h : Depicts events lanes frames) (ht : t.Follows events lanes frames.length)
    (frame : PadOutput × Nat) : Depicts (events ++ t.emitted frame) lanes (frames ++ [frame]) := by
  have hlen : (frames ++ [frame]).length = frames.length + 1 := List.length_append
  have hlater : ∀ s, .stamp s ∈ events → s < t.time := fun s hs => ht.time_eq ▸ h.before s hs
  have hbefore : ∀ s, .stamp s ∈ events ++ t.emitted frame → s < (frames ++ [frame]).length := by
    intro s hs
    rw [hlen]
    rcases List.mem_append.mp hs with hs | hs
    · exact Nat.lt_succ_of_lt (h.before s hs)
    · rw [stamp_mem_halfTickEvents hs, ht.time_eq]
      exact Nat.lt_succ_self _
  refine ⟨?_, hbefore, fun time shown n lane hframe hlane => ?_⟩
  · refine h.stamped.append hlater (wireChanges_increasing ..) fun c hc => ?_
    obtain ⟨k, w, hw, rfl, hchanged⟩ := mem_wireChanges.mp hc
    rwa [Nat.zero_add, ← ht.last_eq k w hw]
  · rcases Nat.lt_or_ge time frames.length with hlt | hge
    · rw [List.getElem?_append_left hlt] at hframe
      rw [Trace.emitted, levelAt_append _ _ (ht.time_eq ▸ hlt)]
      exact h.levels time shown n lane hframe hlane
    · have htime := (List.getElem?_eq_some_iff.mp hframe).1
      obtain rfl : time = frames.length := by omega
      rw [List.getElem?_concat_length] at hframe
      obtain rfl := Option.some.inj hframe
      rw [← ht.lanes_eq, List.getElem?_map, Option.map_eq_some_iff] at hlane
      obtain ⟨w, hw, rfl⟩ := hlane
      rw [levelAt_all hbefore n (Nat.le_of_eq hlen)]
      exact ht.lastLevel_emitted hw

/-- Recording fails only when the half ticks cannot be counted. What has been emitted until
then depicts them. -/
structure Recording.Covers (r : Recording Trace) (lanes : List PadLane)
    (frames : List (PadOutput × Nat)) : Prop where
  depicts : Depicts r.events lanes (frames.take Count.limit)
  completed : frames.length < Count.limit →
    ∃ t, r.result = .ok t ∧ t.Follows r.events lanes frames.length
  stopped : Count.limit ≤ frames.length → r.result = .error .overflow

theorem Trace.start_covers (template : PadOutput) :
    Recording.Covers (pure (Trace.start template)) template.lanes [] := by
  refine ⟨⟨WellStamped.nil, fun s hs => ?_, by simp⟩, fun _ => ⟨_, rfl, rfl, ?_, fun n w hn => ?_⟩,
    fun h => ?_⟩
  · cases hs
  · simp [Trace.start, Function.comp_def]
  · rw [Trace.start, List.getElem?_map, Option.map_eq_some_iff] at hn
    obtain ⟨lane, -, rfl⟩ := hn
    rfl
  · exact absurd h (by decide)

theorem Recording.Covers.tick {r : Recording Trace} (h : r.Covers lanes frames)
    (hread : Readable lanes frame.1 frame.2) :
    (r >>= fun t => t.tick frame).Covers lanes (frames ++ [frame]) := by
  have hlen : (frames ++ [frame]).length = frames.length + 1 := List.length_append
  obtain ⟨events, result⟩ := r
  rcases Nat.lt_or_ge frames.length Count.limit with hlt | hge
  · obtain ⟨t, ht, hfollows⟩ := h.completed hlt
    obtain rfl : result = .ok t := ht
    have hdepicts := h.depicts
    rw [List.take_of_length_le (Nat.le_of_lt hlt)] at hdepicts
    rw [Recording.mk_bind, Trace.tick_eq (hfollows.lanes_eq ▸ hread), Count.add, hfollows.time_eq]
    -- the events of a half tick are out before its count is taken
    refine ⟨?_, fun hroom => ?_, fun hfull => ?_⟩
    · rw [List.take_of_length_le (hlen ▸ hlt)]
      exact hdepicts.next hfollows frame
    · rw [Count.ofExact, if_pos (hlen ▸ hroom), hlen]
      exact ⟨_, rfl, hfollows.next frame⟩
    · rw [Count.ofExact, if_neg (by omega)]
      rfl
  · obtain rfl : result = .error .overflow := h.stopped hge
    refine ⟨?_, fun hroom => by omega, fun _ => rfl⟩
    rw [List.take_append_of_le_length hge]
    exact h.depicts

theorem ticks_cover (h : ∀ frame ∈ frames, Readable template.lanes frame.1 frame.2) :
    (frames.foldlM Trace.tick (Trace.start template)).Covers template.lanes frames := by
  induction frames using List.reverseRecOn with
  | nil => exact Trace.start_covers template
  | append_singleton frames frame ih =>
    have hcovers := ih fun f hf => h f (List.mem_append_left _ hf)
    simp only [List.foldlM_append, List.foldlM_cons, List.foldlM_nil, bind_pure]
    exact hcovers.tick (h frame (by simp))

theorem frames_length (outputs : List PadOutput) :
    (outputs.flatMap PadOutput.frames).length = halfTicks outputs := by
  rw [List.length_flatMap, halfTicks]
  simp only [PadOutput.frames, List.length_map, List.length_range]

theorem frames_getElem? (hk : outputs[k]? = some out) (hh : halfTick < 2 * out.phases) :
    (outputs.flatMap PadOutput.frames)[halfTicks (outputs.take k) + halfTick]? = some (out, halfTick) := by
  obtain ⟨hlt, rfl⟩ := List.getElem?_eq_some_iff.mp hk
  have hsplit : outputs.flatMap PadOutput.frames = (outputs.take k).flatMap PadOutput.frames ++
      (outputs[k].frames ++ (outputs.drop (k + 1)).flatMap PadOutput.frames) := by
    rw [← List.flatMap_cons, ← List.drop_eq_getElem_cons hlt, ← List.flatMap_append, List.take_append_drop]
  rw [hsplit, ← frames_length, List.getElem?_append_right (Nat.le_add_right ..), Nat.add_sub_cancel_left,
    List.getElem?_append_left (by simpa [PadOutput.frames] using hh), PadOutput.frames,
    List.getElem?_map, List.getElem?_range hh]
  rfl

theorem recordAll_covers (hlanes : ∀ out ∈ outputs, ∀ lane ∈ template.lanes, lane ∈ out.lanes)
    (hphases : ∀ out ∈ outputs, out.phases ≤ 32) :
    (recordAll template outputs).Covers template.lanes (outputs.flatMap PadOutput.frames) := by
  rw [recordAll, foldlM_record_eq hphases]
  refine ticks_cover fun frame hf => ?_
  obtain ⟨out, ho, hf⟩ := List.mem_flatMap.mp hf
  obtain ⟨halfTick, hh, rfl⟩ := List.mem_map.mp hf
  intro lane hm
  refine PadOutput.level_ok (hlanes out ho lane hm) ?_
  have hout := hphases out ho
  have hlt := List.mem_range.mp hh
  rw [PadLane.position]
  split_ifs <;> omega

/-- A waveform played back shows in every half tick what the pads carried in it, and an
undriven pad as floating. -/
theorem recording_replays (template : PadOutput) (outputs : List PadOutput)
    (hlanes : ∀ out ∈ outputs, ∀ lane ∈ template.lanes, lane ∈ out.lanes)
    (hphases : ∀ out ∈ outputs, out.phases ≤ 32) :
    ((∃ t, (recordAll template outputs).result = .ok t) ↔ halfTicks outputs < Count.limit) ∧
    (∀ t, (recordAll template outputs).result = .ok t → t.time = halfTicks outputs) ∧
    WellStamped (recordAll template outputs).events ∧
    ∀ k out halfTick n lane, outputs[k]? = some out → halfTick < 2 * out.phases →
      template.lanes[n]? = some lane → halfTicks (outputs.take k) + halfTick < Count.limit →
      ∃ word, out.lane lane = .ok word ∧
        levelAt (recordAll template outputs).events n (halfTicks (outputs.take k) + halfTick) =
          some (if out.driven lane then
            if word.getLsbD (if lane.doubleRate then halfTick else halfTick / 2) then .high else .low
          else .floating) := by
  have hcovers := recordAll_covers hlanes hphases
  have hlen := frames_length outputs
  have hdone : halfTicks outputs < Count.limit → ∃ t, (recordAll template outputs).result = .ok t ∧
      t.time = halfTicks outputs := by
    intro hlt
    obtain ⟨t, ht, hfollows⟩ := hcovers.completed (hlen ▸ hlt)
    exact ⟨t, ht, hlen ▸ hfollows.time_eq⟩
  have hroom : ∀ t, (recordAll template outputs).result = .ok t → halfTicks outputs < Count.limit := by
    intro t ht
    by_contra hge
    rw [hcovers.stopped (by rw [hlen]; omega)] at ht
    cases ht
  refine ⟨⟨fun ⟨t, ht⟩ => hroom t ht, fun hlt => ?_⟩, fun t ht => ?_, hcovers.depicts.stamped, ?_⟩
  · obtain ⟨t, ht, -⟩ := hdone hlt
    exact ⟨t, ht⟩
  · obtain ⟨t', ht', htime⟩ := hdone (hroom t ht)
    rwa [Except.ok.inj (ht.symm.trans ht')]
  · intro k out halfTick n lane hk hh hn hlt
    have hlane : lane ∈ out.lanes := hlanes out (List.mem_of_getElem? hk) lane (List.mem_of_getElem? hn)
    refine ⟨_, PadOutput.lane_word hlane, ?_⟩
    refine hcovers.depicts.levels _ (out, halfTick) n lane ?_ hn
    rw [List.getElem?_take_of_lt hlt]
    exact frames_getElem? hk hh

/-- A chip select that falls after its first tick, and a data pad that is driven only in the
second record, which is half as long. -/
def pulseOutputs : List PadOutput :=
  [{ PadOutput.blank 8 8 with clk := 0x5555, cs := 1 },
    { PadOutput.blank 4 8 with clk := 0x5555, dq := 2 :: List.replicate 7 0, dqOe := true }]

theorem pulse_replays : ∃ t, (recordAll (PadOutput.blank 8 8) pulseOutputs).result = .ok t ∧ t.time = 24 ∧
    levelAt (recordAll (PadOutput.blank 8 8) pulseOutputs).events 4 1 = some .high ∧
    levelAt (recordAll (PadOutput.blank 8 8) pulseOutputs).events 4 2 = some .low ∧
    levelAt (recordAll (PadOutput.blank 8 8) pulseOutputs).events 12 15 = some .floating ∧
    levelAt (recordAll (PadOutput.blank 8 8) pulseOutputs).events 12 17 = some .high := by
  obtain ⟨hdone, htime, -, hlevels⟩ :=
    recording_replays (PadOutput.blank 8 8) pulseOutputs (by decide) (by decide)
  obtain ⟨t, ht⟩ := hdone.mpr (by decide)
  have hlevel : ∀ k out halfTick n lane time, pulseOutputs[k]? = some out → halfTick < 2 * out.phases →
      (PadOutput.blank 8 8).lanes[n]? = some lane →
      halfTicks (pulseOutputs.take k) + halfTick = time → time < Count.limit →
      levelAt (recordAll (PadOutput.blank 8 8) pulseOutputs).events n time =
        some (out.shown lane halfTick) := by
    rintro k out halfTick n lane _ hk hh hn rfl hlt
    obtain ⟨word, hword, hlevel⟩ := hlevels k out halfTick n lane hk hh hn hlt
    rw [hlevel, PadOutput.shown, PadOutput.word_eq hword]
    rfl
  refine ⟨t, ht, htime t ht, ?_, ?_, ?_, ?_⟩
  · exact hlevel 0 pulseOutputs[0] 1 4 .cs 1 rfl (by decide) rfl rfl (by decide)
  · exact hlevel 0 pulseOutputs[0] 2 4 .cs 2 rfl (by decide) rfl rfl (by decide)
  · exact hlevel 0 pulseOutputs[0] 15 12 (.dq 0) 15 rfl (by decide) rfl rfl (by decide)
  · exact hlevel 1 pulseOutputs[1] 1 12 (.dq 0) 17 rfl (by decide) rfl rfl (by decide)

end DramPhy
