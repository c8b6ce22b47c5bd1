import DramPhy.Controller.Phase
import DramPhy.Proofs.WordBits
import Mathlib.Data.List.Induction

/-! Words of lanes read from the phases and put into their read data. Lanes of one width
share no bit of a phase, so a word that was put in is read back whatever the other lanes
received. -/

namespace DramPhy

def scatterWords (width : Nat) (words : List Word) (phases : List Phase) : List Phase :=
  words.zipIdx.foldl (fun ps w => ps.mapIdx fun k ph => ph.receive k width w.2 w.1) phases

variable {width lane other : Nat} {phases : List Phase} {words : List Word}

theorem beatBit_lt (hl : lane < width) (i : Nat) : beatBit width lane i < 2 * width := by
  rcases Nat.mod_two_eq_zero_or_one i with hi | hi <;> simp only [beatBit, hi] <;> omega

theorem beatBit_eq_iff (hl : lane < width) (ho : other < width) (i j : Nat) :
    beatBit width lane i = beatBit width other j ↔ lane = other ∧ i % 2 = j % 2 := by
  rw [beatBit, beatBit]
  rcases Nat.mod_two_eq_zero_or_one i with hi | hi <;>
    rcases Nat.mod_two_eq_zero_or_one j with hj | hj <;>
    rw [hi, hj] <;> omega

section

variable (hn : phases.length ≤ 32)

include hn

theorem laneWord_getLsbD {ph : Phase} {i : Nat} (field : Phase → Word) (width lane : Nat)
    (hph : phases[i / 2]? = some ph) :
    (laneWord phases field width lane).getLsbD i = (field ph).getLsbD (beatBit width lane i) := by
  have hi := (List.getElem?_eq_some_iff.mp hph).1
  rw [laneWord, Word.getLsbD_ofBits, decide_eq_true (by omega), decide_eq_true (by omega), hph,
    Option.any_some, Bool.true_and, Bool.true_and]

theorem laneWord_beat {ph : Phase} {k : Nat} (field : Phase → Word) (width lane i : Nat)
    (hph : phases[k]? = some ph) :
    (laneWord phases field width lane).getLsbD (2 * k + i % 2) =
      (field ph).getLsbD (beatBit width lane i) := by
  have hphase : (2 * k + i % 2) / 2 = k := by omega
  have hbeat : beatBit width lane (2 * k + i % 2) = beatBit width lane i := by
    rw [beatBit, beatBit, show (2 * k + i % 2) % 2 = i % 2 by omega]
  rw [laneWord_getLsbD hn field width lane (by rwa [hphase]), hbeat]

variable (hfit : 2 * width ≤ 64) (hl : lane < width)

include hfit hl

theorem laneFits : LaneFits phases width lane := by
  have hbeat := beatBit_lt hl 1
  exact .inr ⟨by omega, by omega⟩

theorem gatherLane_ok (field : Phase → Word) :
    gatherLane phases field width lane = .ok (laneWord phases field width lane) :=
  if_pos (laneFits hn hfit hl)

theorem scatterLane_ok (word : Word) : scatterLane phases width lane word =
    .ok (phases.mapIdx fun k ph => ph.receive k width lane word) :=
  if_pos (laneFits hn hfit hl)

end

theorem Phase.receive_getLsbD (ph : Phase) (word : Word) (k i : Nat) (hw : 2 * width ≤ 64)
    (hl : lane < width) (ho : other < width) :
    (ph.receive k width lane word).rddata.getLsbD (beatBit width other i) =
      if other = lane then word.getLsbD (2 * k + i % 2)
      else ph.rddata.getLsbD (beatBit width other i) := by
  have hfirst := beatBit_lt hl 0
  have hsecond := beatBit_lt hl 1
  have hzero := beatBit_eq_iff ho hl i 0
  have hone := beatBit_eq_iff ho hl i 1
  simp only [Phase.receive, Word.getLsbD_put _ _ _ (show beatBit width lane 0 < 64 by omega),
    Word.getLsbD_put _ _ _ (show beatBit width lane 1 < 64 by omega), hzero, hone]
  by_cases he : other = lane
  · rcases Nat.mod_two_eq_zero_or_one i with hi | hi <;> simp [he, hi]
  · simp [he]

theorem laneWord_receive (word : Word) (hw : 2 * width ≤ 64) (hl : lane < width)
    (ho : other < width) :
    laneWord (phases.mapIdx fun k ph => ph.receive k width lane word) Phase.rddata width other =
      if other = lane then word.cut (2 * phases.length)
      else laneWord phases Phase.rddata width other := by
  apply BitVec.eq_of_getLsbD_eq
  intro i hi
  rw [laneWord, Word.getLsbD_ofBits, List.length_mapIdx, apply_ite (BitVec.getLsbD · i),
    Word.getLsbD_cut, laneWord, Word.getLsbD_ofBits]
  by_cases hlen : i < 2 * phases.length
  · have hhalf : i / 2 < phases.length := by omega
    have hpos : 2 * (i / 2) + i % 2 = i := by omega
    simp only [List.getElem?_mapIdx, List.getElem?_eq_getElem hhalf, Option.map_some, Option.any_some,
      Phase.receive_getLsbD _ _ _ _ hw hl ho, hpos, hlen, hi, decide_true, Bool.true_and, Bool.and_true]
  · simp [hlen]

theorem scatterWords_append (word : Word) : scatterWords width (words ++ [word]) phases =
    (scatterWords width words phases).mapIdx fun k ph => ph.receive k width words.length word := by
  simp [scatterWords, List.zipIdx_append]

theorem scatterWords_length : (scatterWords width words phases).length = phases.length := by
  induction words using List.reverseRecOn with
  | nil => rfl
  | append_singleton words word ih => rw [scatterWords_append, List.length_mapIdx, ih]

/-- What no lane writes to is as it was. -/
theorem scatterWords_map {α : Type} {field : Phase → α}
    (hfield : ∀ ph k lane word, field (ph.receive k width lane word) = field ph) :
    (scatterWords width words phases).map field = phases.map field := by
  induction words using List.reverseRecOn with
  | nil => rfl
  | append_singleton words word ih =>
    rw [scatterWords_append, ← ih]
    apply List.ext_getElem
    · simp
    · intro k _ _
      simp [hfield]

theorem laneWord_scatterWords {word : Word} (hw : 2 * width ≤ 64) (hlen : words.length ≤ width)
    (hword : words[lane]? = some word) :
    laneWord (scatterWords width words phases) Phase.rddata width lane =
      word.cut (2 * phases.length) := by
  induction words using List.reverseRecOn with
  | nil => simp at hword
  | append_singleton words last ih =>
    rw [List.length_append, List.length_singleton] at hlen
    have hlt : lane < words.length + 1 := by
      have := (List.getElem?_eq_some_iff.mp hword).1
      simpa using this
    rw [scatterWords_append, laneWord_receive _ hw (by omega) (by omega), scatterWords_length]
    by_cases he : lane = words.length
    · have hlast : last = word := by simpa [he] using hword
      rw [if_pos he, hlast]
    · rw [if_neg he]
      rw [List.getElem?_append_left (by omega)] at hword
      exact ih (by omega) hword

end DramPhy
