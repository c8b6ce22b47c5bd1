import DramPhy.Proofs.Controller.LaneScatter
import DramPhy.Proofs.Success

/-! Gathering the words of lanes and scattering words into lanes are inverse. Every data
bit of a phase belongs to one lane and one beat, so a lane that is scattered changes no
other, and all lanes together carry the data of the phases over. -/

namespace DramPhy

/-- The write data of some phases put into the read data of others, lane after lane. -/
def transferLanes (sources : List Phase) (width : Nat) (lanes : List Nat)
    (phases : List Phase) : Checked (List Phase) :=
  lanes.foldlM (fun ps lane => do
    let word ← gatherLane sources Phase.wrdata width lane
    scatterLane ps width lane word) phases

/-- The same phase, but for the low `n` bits of its read data. -/
structure Phase.KeepsAbove (n : Nat) (before after : Phase) : Prop where
  fields : after = { before with rddata := after.rddata }
  above : ∀ i, n ≤ i → after.rddata.getLsbD i = before.rddata.getLsbD i

/-- A phase once the write data of another one has been put into some of its lanes. -/
structure Phase.Transferred (width : Nat) (lanes : List Nat) (source before after : Phase) :
    Prop where
  keeps : before.KeepsAbove (2 * width) after
  beats : ∀ lane i, lane < width → after.rddata.getLsbD (beatBit width lane i) =
    if lane ∈ lanes then source.wrdata.getLsbD (beatBit width lane i)
    else before.rddata.getLsbD (beatBit width lane i)

variable {width lane k : Nat} {lanes : List Nat} {phases sources : List Phase}
  {source before after : Phase}

theorem exists_beatBit {i : Nat} (hi : i < 2 * width) :
    ∃ lane beat, lane < width ∧ beatBit width lane beat = i := by
  by_cases hfirst : i < width
  · exact ⟨i, 0, hfirst, by simp [beatBit]⟩
  · exact ⟨i - width, 1, by omega, by simp only [beatBit]; omega⟩

/-- A word is settled by the beats of its lanes and what is above them. -/
theorem Word.eq_of_beats {v w : Word} (width : Nat)
    (hbeat : ∀ lane beat, lane < width →
      v.getLsbD (beatBit width lane beat) = w.getLsbD (beatBit width lane beat))
    (habove : ∀ b, 2 * width ≤ b → v.getLsbD b = w.getLsbD b) : v = w := by
  apply BitVec.eq_of_getLsbD_eq
  intro b _
  by_cases hb : b < 2 * width
  · obtain ⟨lane, beat, hlane, rfl⟩ := exists_beatBit hb
    exact hbeat lane beat hlane
  · exact habove b (Nat.le_of_not_lt hb)

theorem Phase.receive_above (before : Phase) (k : Nat) (word : Word) (hfit : 2 * width ≤ 64)
    (hlane : lane < width) {i : Nat} (hi : 2 * width ≤ i) :
    (before.receive k width lane word).rddata.getLsbD i = before.rddata.getLsbD i := by
  have hfirst := beatBit_lt hlane 0
  have hsecond := beatBit_lt hlane 1
  rw [Phase.receive, Word.getLsbD_put _ _ _ (by omega), Word.getLsbD_put _ _ _ (by omega),
    if_neg (by omega), if_neg (by omega)]

theorem Phase.receive_keeps (before : Phase) (k : Nat) (word : Word) (hfit : 2 * width ≤ 64)
    (hlane : lane < width) : before.KeepsAbove (2 * width) (before.receive k width lane word) :=
  ⟨rfl, fun _ hi => before.receive_above k word hfit hlane hi⟩

theorem Phase.KeepsAbove.trans {n : Nat} {first second third : Phase}
    (h : first.KeepsAbove n second) (h' : second.KeepsAbove n third) :
    first.KeepsAbove n third := by
  constructor
  case fields =>
    rw [h'.fields, h.fields]
  case above =>
    intro i hi
    rw [h'.above i hi, h.above i hi]

/-- One lane more. -/
theorem Phase.Transferred.receive (h : Phase.Transferred width lanes source before after)
    (hn : sources.length ≤ 32) (hfit : 2 * width ≤ 64) (hlane : lane < width)
    (hsource : sources[k]? = some source) :
    Phase.Transferred width (lanes ++ [lane]) source before
      (after.receive k width lane (laneWord sources Phase.wrdata width lane)) := by
  constructor
  case keeps => exact h.keeps.trans (after.receive_keeps k _ hfit hlane)
  case beats =>
    intro other i hother
    rw [Phase.receive_getLsbD after _ k i hfit hlane hother, laneWord_beat hn _ _ _ _ hsource,
      h.beats other i hother]
    by_cases hsame : other = lane
    · rw [if_pos hsame, if_pos (by simp [hsame]), hsame]
    · simp [hsame]

theorem transferLanes_ok (hn : phases.length ≤ 32) (hfit : 2 * width ≤ 64)
    (hlen : sources.length = phases.length) (hlanes : ∀ lane ∈ lanes, lane < width) :
    ∃ after, transferLanes sources width lanes phases = .ok after ∧
      after.length = phases.length ∧
      ∀ (k : Nat) (source before q : Phase), sources[k]? = some source →
        phases[k]? = some before → after[k]? = some q →
        Phase.Transferred width lanes source before q := by
  induction lanes using List.reverseRecOn with
  | nil =>
    refine ⟨phases, rfl, rfl, fun k source before q _ hbefore hq => ?_⟩
    obtain rfl := Option.some.inj (hbefore.symm.trans hq)
    exact ⟨⟨rfl, fun _ _ => rfl⟩, fun _ _ _ => by simp⟩
  | append_singleton lanes lane ih =>
    obtain ⟨ps, hps, hcount, htransferred⟩ := ih fun l hm => hlanes l (List.mem_append_left _ hm)
    have hlane : lane < width := hlanes lane (by simp)
    refine ⟨ps.mapIdx fun k phase =>
      phase.receive k width lane (laneWord sources Phase.wrdata width lane), ?_, ?_, ?_⟩
    · rw [transferLanes] at hps ⊢
      rw [List.foldlM_append, hps, ok_bind, List.foldlM_cons,
        gatherLane_ok (by omega) hfit hlane, ok_bind, scatterLane_ok (by omega) hfit hlane, ok_bind,
        List.foldlM_nil]
      rfl
    · rw [List.length_mapIdx, hcount]
    · intro k source before q hsource hbefore hq
      rw [List.getElem?_mapIdx, Option.map_eq_some_iff] at hq
      obtain ⟨after, hafter, rfl⟩ := hq
      exact (htransferred k source before after hsource hbefore hafter).receive
        (by omega) hfit hlane hsource

theorem Phase.Transferred.cut_eq (h : Phase.Transferred width lanes source before after)
    (hall : ∀ lane, lane < width → lane ∈ lanes) :
    after.rddata.cut (2 * width) = source.wrdata.cut (2 * width) := by
  apply BitVec.eq_of_getLsbD_eq
  intro i _
  rw [Word.getLsbD_cut, Word.getLsbD_cut]
  by_cases hi : i < 2 * width
  · obtain ⟨lane, beat, hlane, rfl⟩ := exists_beatBit hi
    rw [h.beats lane beat hlane, if_pos (hall lane hlane)]
  · rw [decide_eq_false hi, Bool.and_false, Bool.and_false]

/-- A lane that was scattered is gathered again and nothing else has changed; all lanes of
the write data, scattered in any order, make it the read data. -/
theorem scatter_inverts_gather (hn : phases.length ≤ 32) (hfit : 2 * width ≤ 64) :
    (∀ lane word, lane < width → ∃ after, scatterLane phases width lane word = .ok after ∧
      List.Forall₂ (Phase.KeepsAbove (2 * width)) phases after ∧
      ∀ other, other < width → ∃ before,
        gatherLane phases Phase.rddata width other = .ok before ∧
        gatherLane after Phase.rddata width other =
          .ok (if other = lane then word.cut (2 * phases.length) else before)) ∧
    ∀ sources lanes, sources.length = phases.length → lanes.Perm (List.range width) →
      ∃ after, transferLanes sources width lanes phases = .ok after ∧
        List.Forall₂ (Phase.KeepsAbove (2 * width)) phases after ∧
        List.Forall₂ (fun source phase =>
          phase.rddata.cut (2 * width) = source.wrdata.cut (2 * width)) sources after := by
  constructor
  · intro lane word hlane
    refine ⟨_, scatterLane_ok hn hfit hlane word, ?_, fun other hother => ?_⟩
    · rw [List.forall₂_iff_get]
      refine ⟨by rw [List.length_mapIdx], fun k hk hk' => ?_⟩
      simp only [List.get_eq_getElem, List.getElem_mapIdx]
      exact phases[k].receive_keeps k word hfit hlane
    · refine ⟨_, gatherLane_ok hn hfit hother Phase.rddata, ?_⟩
      rw [gatherLane_ok (by rwa [List.length_mapIdx]) hfit hother, laneWord_receive word hfit hlane hother]
  · intro sources lanes hlen hperm
    have hmem : ∀ lane, lane ∈ lanes ↔ lane < width := by
      intro lane
      rw [hperm.mem_iff, List.mem_range]
    obtain ⟨after, hafter, hcount, htransferred⟩ :=
      transferLanes_ok hn hfit hlen fun lane hm => (hmem lane).mp hm
    refine ⟨after, hafter, ?_, ?_⟩
    · rw [List.forall₂_iff_get]
      refine ⟨hcount.symm, fun k hk hk' => ?_⟩
      exact (htransferred k _ _ _ (List.getElem?_eq_getElem (by omega)) (List.getElem?_eq_getElem hk)
        (List.getElem?_eq_getElem hk')).keeps
    · rw [List.forall₂_iff_get]
      refine ⟨by omega, fun k hk hk' => ?_⟩
      exact (htransferred k _ _ _ (List.getElem?_eq_getElem hk) (List.getElem?_eq_getElem (by omega))
        (List.getElem?_eq_getElem hk')).cut_eq fun lane => (hmem lane).mpr

def filledPhases : List Phase :=
  [{ Phase.idle with wrdata := 0xfedcba9876543210 }, { Phase.idle with wrdata := 0x0123456789abcdef }]

/-- The lanes of whole words, the last one first. -/
theorem whole_words_transferred : ∃ p q,
    transferLanes filledPhases 32 (List.range 32).reverse [Phase.idle, Phase.idle] = .ok [p, q] ∧
      p.rddata.cut 64 = 0xfedcba9876543210 ∧ q.rddata.cut 64 = 0x0123456789abcdef := by
  obtain ⟨-, hall⟩ := scatter_inverts_gather (show [Phase.idle, Phase.idle].length ≤ 32 by decide)
    (show 2 * 32 ≤ 64 by decide)
  obtain ⟨after, hafter, -, hdata⟩ := hall filledPhases _ rfl (List.range 32).reverse_perm
  rw [filledPhases, List.forall₂_cons_left_iff] at hdata
  obtain ⟨p, rest, hp, hrest, rfl⟩ := hdata
  rw [List.forall₂_cons_left_iff] at hrest
  obtain ⟨q, rest, hq, hnone, rfl⟩ := hrest
  rw [List.forall₂_nil_left_iff.mp hnone] at hafter
  exact ⟨p, q, hafter, hp.trans (by decide), hq.trans (by decide)⟩

end DramPhy
