import DramPhy.Pad.Bundle
import DramPhy.Proofs.Success
import DramPhy.Proofs.WordBits
import Mathlib.Data.List.Induction

/-! Pad bundles as maps from lanes to words. Setting a lane changes this lane and no
other, so a bundle that is filled lane by lane is known by its lanes. -/

namespace DramPhy

/-- The word of a lane, low for a lane that the bundle does not have. -/
def PadOutput.word (out : PadOutput) (lane : PadLane) : Word :=
  match out.lane lane with
  | .ok word => word
  | .error _ => 0

variable {out out' : PadOutput} {lane : PadLane} {word : Word} {lanes : List PadLane}

theorem replaceEntry_eq_ok {α : Type} {xs ys : List α} {k : Nat} {x : α} :
    replaceEntry xs k x = .ok ys ↔ k < xs.length ∧ xs.set k x = ys := by
  by_cases h : k < xs.length <;> simp [replaceEntry, h]

/-- A bundle has a word for each of its lanes, and for no other. -/
theorem PadOutput.mem_lanes : lane ∈ out.lanes ↔ ∃ word, out.lane lane = .ok word := by
  have hentry : ∀ (xs : List Word) (k : Nat), (∃ word, entry xs k = .ok word) ↔ k < xs.length := by
    intro xs k
    simp only [entry_eq_ok, List.getElem?_eq_some_iff]
    exact ⟨fun ⟨_, hk, _⟩ => hk, fun hk => ⟨_, hk, rfl⟩⟩
  cases lane <;> simp [PadOutput.lanes, dataLanes, PadOutput.lane, hentry]

theorem PadOutput.lengths_eq (h : out.lanes = out'.lanes) :
    out.dmi.length = out'.dmi.length ∧ out.dq.length = out'.dq.length ∧
      out.dqs.length = out'.dqs.length := by
  have hlength : ∀ {m n : Nat}, (∀ k, k < m ↔ k < n) → m = n := by
    intro m n hmn
    have hm := hmn m
    have hn := hmn n
    omega
  have hmem : ∀ lane, lane ∈ out.lanes ↔ lane ∈ out'.lanes := fun lane => by rw [h]
  refine ⟨hlength fun k => ?_, hlength fun k => ?_, hlength fun k => ?_⟩
  · simpa [PadOutput.lanes, dataLanes] using hmem (.dmi k)
  · simpa [PadOutput.lanes, dataLanes] using hmem (.dq k)
  · simpa [PadOutput.lanes, dataLanes] using hmem (.dqs k)

theorem PadOutput.word_eq (h : out.lane lane = .ok word) : out.word lane = word := by
  rw [PadOutput.word, h]

theorem PadOutput.lane_word (h : lane ∈ out.lanes) : out.lane lane = .ok (out.word lane) := by
  obtain ⟨word, hword⟩ := PadOutput.mem_lanes.mp h
  rw [hword, PadOutput.word_eq hword]

theorem PadOutput.setLane_lane (h : out.setLane lane word = .ok out') (other : PadLane) :
    out'.lane other = if other = lane then .ok word else out.lane other := by
  have hentry : ∀ (xs : List Word) (k j : Nat), k < xs.length →
      entry (xs.set k word) j = if j = k then .ok word else entry xs j := by
    intro xs k j hk
    rw [entry, List.getElem?_set]
    by_cases hj : j = k
    · simp [hj, hk]
    · simp [hj, Ne.symm hj, entry]
  cases lane with
  | clk | cke | odt | resetN | cs =>
    obtain rfl := Except.ok.inj h
    cases other <;> simp [PadOutput.lane]
  | ca k =>
    rw [PadOutput.setLane] at h
    split_ifs at h with hk
    obtain rfl := Except.ok.inj h
    cases other <;> simp [PadOutput.lane, Vector.toList_set, hentry, hk]
  | dmi k | dq k | dqs k =>
    simp only [PadOutput.setLane, bind_eq_ok, pure_eq_ok, replaceEntry_eq_ok] at h
    obtain ⟨_, ⟨hk, rfl⟩, rfl⟩ := h
    cases other <;> simp [PadOutput.lane, hentry, hk]

theorem PadOutput.setLane_shape (h : out.setLane lane word = .ok out') :
    out'.lanes = out.lanes ∧ out'.phases = out.phases := by
  cases lane with
  | clk | cke | odt | resetN | cs =>
    obtain rfl := Except.ok.inj h
    exact ⟨rfl, rfl⟩
  | ca k =>
    rw [PadOutput.setLane] at h
    split_ifs at h with hk
    obtain rfl := Except.ok.inj h
    exact ⟨rfl, rfl⟩
  | dmi k | dq k | dqs k =>
    simp only [PadOutput.setLane, bind_eq_ok, pure_eq_ok, replaceEntry_eq_ok] at h
    obtain ⟨_, ⟨hk, rfl⟩, rfl⟩ := h
    simp [PadOutput.lanes]

theorem PadOutput.setLane_ok (h : lane ∈ out.lanes) (word : Word) :
    ∃ out', out.setLane lane word = .ok out' := by
  cases lane with
  | clk | cke | odt | resetN | cs => exact ⟨_, rfl⟩
  | ca k =>
    have hk : k < caPads := by simpa [PadOutput.lanes, dataLanes] using h
    exact ⟨_, dif_pos hk⟩
  | dmi k | dq k | dqs k =>
    simp only [PadOutput.setLane, bind_eq_ok, pure_eq_ok, replaceEntry_eq_ok]
    exact ⟨_, _, ⟨by simpa [PadOutput.lanes, dataLanes] using h, rfl⟩, rfl⟩

theorem PadOutput.foldlM_setLane (out : PadOutput) (f : PadLane → Word) (h : ∀ lane ∈ lanes, lane ∈ out.lanes) :
    ∃ filled, lanes.foldlM (fun out lane => out.setLane lane (f lane)) out = .ok filled ∧
      filled.lanes = out.lanes ∧ filled.phases = out.phases ∧
      ∀ lane, filled.lane lane = if lane ∈ lanes then .ok (f lane) else out.lane lane := by
  induction lanes using List.reverseRecOn with
  | nil => exact ⟨out, rfl, rfl, rfl, by simp⟩
  | append_singleton lanes last ih =>
    obtain ⟨before, hbefore, hlanes, hphases, hwords⟩ := ih fun l hl => h l (by simp [hl])
    obtain ⟨filled, hfilled⟩ := PadOutput.setLane_ok (hlanes ▸ h last (by simp)) (f last)
    obtain ⟨hshape, hsame⟩ := PadOutput.setLane_shape hfilled
    refine ⟨filled, ?_, hshape.trans hlanes, hsame.trans hphases, fun lane => ?_⟩
    · rw [List.foldlM_append, hbefore, ok_bind, List.foldlM_cons, hfilled]
      rfl
    · rw [PadOutput.setLane_lane hfilled, hwords]
      by_cases hl : lane = last <;> simp [hl]

def PadInput.ofLanes (databits : Nat) (f : PadLane → Word) : PadInput where
  dmi := (List.range (byteLanes databits)).map fun i => f (.dmi i)
  dq := (List.range databits).map fun i => f (.dq i)
  dqs := (List.range (byteLanes databits)).map fun i => f (.dqs i)

variable {pads pads' : PadInput}

theorem PadInput.ext_lane (h : ∀ lane, pads.lane? lane = pads'.lane? lane) : pads = pads' := by
  have hdmi : pads.dmi = pads'.dmi := List.ext_getElem? fun i => h (.dmi i)
  have hdq : pads.dq = pads'.dq := List.ext_getElem? fun i => h (.dq i)
  have hdqs : pads.dqs = pads'.dqs := List.ext_getElem? fun i => h (.dqs i)
  cases pads
  cases pads'
  simp_all

theorem PadInput.setLane?_lane? (pads : PadInput) (lane : PadLane) (word : Word) (other : PadLane) :
    ((pads.setLane? lane word).getD pads).lane? other =
      if other = lane then (pads.lane? other).map fun _ => word else pads.lane? other := by
  have hset : ∀ (xs : List Word) (k j : Nat), k < xs.length →
      (xs.set k word)[j]? = if j = k then xs[j]?.map fun _ => word else xs[j]? := by
    intro xs k j hk
    rw [List.getElem?_set]
    by_cases hj : j = k
    · simp [hj, hk]
    · simp [hj, Ne.symm hj]
  cases lane with
  | clk | cke | odt | resetN | cs | ca k => cases other <;> simp [PadInput.setLane?, PadInput.lane?]
  | dmi k | dq k | dqs k =>
    rw [PadInput.setLane?]
    split
    · rename_i hk
      cases other <;> simp [PadInput.lane?, hset _ _ _ hk]
    · rename_i hk
      split_ifs with ho
      · simp [ho, PadInput.lane?, List.getElem?_eq_none (Nat.le_of_not_lt hk)]
      · rfl

theorem PadInput.foldl_setLane? (f : PadLane → Word) (pads : PadInput) (lane : PadLane) :
    (lanes.foldl (fun pads l => (pads.setLane? l (f l)).getD pads) pads).lane? lane =
      if lane ∈ lanes then (pads.lane? lane).map fun _ => f lane else pads.lane? lane := by
  induction lanes using List.reverseRecOn with
  | nil => simp
  | append_singleton lanes last ih =>
    rw [List.foldl_append, List.foldl_cons, List.foldl_nil, PadInput.setLane?_lane?, ih]
    by_cases hl : lane = last
    · by_cases hm : last ∈ lanes <;> simp [hl, hm, Function.comp_def]
    · simp [hl]

theorem PadInput.blank_eq_ofLanes (databits : Nat) :
    PadInput.blank databits = PadInput.ofLanes databits fun _ => 0 := by
  simp [PadInput.blank, PadInput.ofLanes]

theorem PadInput.ofLanes_lane? (databits : Nat) (f : PadLane → Word) (lane : PadLane) :
    (PadInput.ofLanes databits f).lane? lane =
      if lane ∈ (PadInput.blank databits).lanes then some (f lane) else none := by
  have hrange : ∀ (n k : Nat) (g : Nat → Word),
      ((List.range n).map g)[k]? = if k < n then some (g k) else none := by
    intro n k g
    by_cases hk : k < n <;> simp [hk]
  cases lane <;>
    simp [PadInput.lanes, PadInput.blank, dataLanes, PadInput.ofLanes, PadInput.lane?, hrange]

/-- Nothing of a blank bundle is left when all of its lanes have been set. -/
theorem PadInput.fill_blank (databits : Nat) (f : PadLane → Word) :
    (PadInput.blank databits).lanes.foldl (fun pads l => (pads.setLane? l (f l)).getD pads)
      (PadInput.blank databits) = PadInput.ofLanes databits f := by
  apply PadInput.ext_lane
  intro lane
  rw [PadInput.foldl_setLane?, PadInput.ofLanes_lane?]
  conv_lhs => rw [PadInput.blank_eq_ofLanes, PadInput.ofLanes_lane?]
  rw [← PadInput.blank_eq_ofLanes]
  split_ifs <;> rfl

end DramPhy
