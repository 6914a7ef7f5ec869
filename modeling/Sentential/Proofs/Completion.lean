import Mathlib
import Sentential.Proof.Review
import Sentential.Proofs.Runs

/-! When a proof counts as complete. The conclusion is looked for when it is set and when a step is
derived, but not when a premise is added. So the flag of a proof says whether the conclusion is
among the steps up to the last look, and all steps since are premises. -/

namespace Sentential.Proof

/-- The flag of the proof says whether the conclusion is among its steps. -/
def Exact (p : Proof) : Prop :=
  p.isComplete = true ↔
    ∃ goal, p.conclusion = some goal ∧ ∃ s ∈ p.steps, s.content.text = goal.text

/-- The conclusion was last looked for among the first `k` steps. -/
structure Looked (p : Proof) (k : Nat) : Prop where
  le : k ≤ p.steps.length
  premises : ∀ s ∈ p.steps.drop k, s.isPremise = true
  flag : p.isComplete = true ↔
    ∃ goal, p.conclusion = some goal ∧ ∃ s ∈ p.steps.take k, s.content.text = goal.text

/-- The number of steps looked at in `q`, to which `p`, where it was `k`, has grown by derived
steps. If there are none, nothing was looked for. -/
def lookedAt (p : Proof) (k : Nat) (q : Proof) : Nat :=
  if q.steps.length = p.steps.length then k else q.steps.length

/-- The number of steps looked at, after a move in a proof where it was `k`. -/
def lookedAfter (p : Proof) (k : Nat) (m : Move) : Nat :=
  match m with
  | .premise _ => k
  | .conclusion text =>
    match Sentence.read text with
    | .ok _ => p.steps.length
    | .error _ => k
  | .rule .. | .search _ => p.lookedAt k (p.after m)
  | .clear => 0

/-- The number of steps looked at after a list of moves. -/
def lookedIn (p : Proof) (k : Nat) : List Move → Nat
  | [] => k
  | m :: moves => lookedIn (p.after m) (p.lookedAfter k m) moves

theorem looked_empty : Looked empty 0 where
  le := Nat.le_refl 0
  premises _ hs := nomatch hs
  flag := by simp [empty]

theorem looked_refreshed {p : Proof} (h : p.conclusion = none → p.isComplete = false) :
    Looked p.refreshed p.steps.length where
  le := by rw [steps_refreshed]
  premises := by simp
  flag := by
    rw [conclusion_refreshed, steps_refreshed, List.take_length]
    unfold refreshed
    split
    · next hnone => simp [hnone, h hnone]
    · next goal hgoal => simp [hgoal, hasText_iff]

namespace Looked

variable {p q : Proof} {k : Nat}

theorem unset (h : Looked p k) (hnone : p.conclusion = none) : p.isComplete = false := by
  rw [← Bool.not_eq_true, h.flag, hnone]
  rintro ⟨goal, hgoal, -⟩
  cases hgoal

theorem addPremise (h : Looked p k) {s : Sentence} (hadd : p.addPremise (.sentence s) = .ok q) :
    Looked q k := by
  obtain ⟨s, -, -, rfl⟩ := addPremise_inv hadd
  refine ⟨?_, ?_, ?_⟩
  · have hle := h.le
    rw [addStep, List.length_append]
    omega
  · rw [addStep, List.drop_append_of_le_length h.le]
    intro t ht
    rcases List.mem_append.mp ht with ht | ht
    · exact h.premises t ht
    · rw [List.mem_singleton.mp ht]
      rfl
  · rw [addStep, List.take_append_of_le_length h.le]
    exact h.flag

theorem setConclusion {s : Sentence} (hset : p.setConclusion (.sentence s) = .ok q) :
    Looked q p.steps.length := by
  cases hset
  exact looked_refreshed fun hnone => nomatch hnone

theorem derived (h : Looked p k) {choices : Choices} {rule r : Rule} {indices : List Int}
    (happly : p.apply choices rule indices = .derived r q) :
    q.steps.length = p.steps.length + 1 ∧ Looked q q.steps.length := by
  obtain ⟨contents, s, -, -, -, rfl⟩ := apply_inv happly
  rw [steps_refreshed]
  exact ⟨by simp [addStep], looked_refreshed h.unset⟩

end Looked

/-- The proof `q` has no fewer steps than `p`, and if it has more, all were looked at. -/
structure Grown (p : Proof) (k : Nat) (q : Proof) : Prop where
  le : p.steps.length ≤ q.steps.length
  looked : Looked q (p.lookedAt k q)

theorem preserved_grown (p : Proof) (k : Nat) : Preserved (Grown p k) := by
  intro q choices rule r indices q' h happly
  obtain ⟨hlength, hlooked⟩ := h.looked.derived happly
  have hle := h.le
  refine ⟨by omega, ?_⟩
  rw [lookedAt, if_neg (by omega)]
  exact hlooked

namespace Looked

variable {p : Proof} {k : Nat}

theorem grown (h : Looked p k) : Grown p k p :=
  ⟨Nat.le_refl _, by rwa [lookedAt, if_pos rfl]⟩

theorem after (h : Looked p k) (m : Move) : Looked (p.after m) (p.lookedAfter k m) := by
  have heffect := effect_after p m
  unfold lookedAfter
  generalize p.after m = q at heffect ⊢
  cases heffect with
  | premise _ hadd => exact h.addPremise hadd
  | noPremise => exact h
  | conclusion hread hset => simpa only [hread] using Looked.setConclusion hset
  | noConclusion hread => simpa only [hread] using h
  | derived _ happly => exact (preserved_grown p k h.grown happly).looked
  | declined => exact h.grown.looked
  | search limit => exact (search_keeps (preserved_grown p k) limit h.grown).proof.looked
  | clear => exact looked_empty

theorem foldl (h : Looked p k) (moves : List Move) :
    Looked (moves.foldl Proof.after p) (p.lookedIn k moves) := by
  induction moves generalizing p k with
  | nil => exact h
  | cons m moves ih => exact ih (h.after m)

/-- The flag is wrong exactly if it is not set and a premise since the last look is the
conclusion. -/
theorem exact_iff (h : Looked p k) :
    p.Exact ↔ ∀ goal, p.conclusion = some goal →
      (∃ s ∈ p.steps.drop k, s.content.text = goal.text) → p.isComplete = true := by
  constructor
  · rintro hexact goal hgoal ⟨s, hs, htext⟩
    exact hexact.mpr ⟨goal, hgoal, s, List.mem_of_mem_drop hs, htext⟩
  · intro hlate
    constructor
    · intro hcomplete
      obtain ⟨goal, hgoal, s, hs, htext⟩ := h.flag.mp hcomplete
      exact ⟨goal, hgoal, s, List.mem_of_mem_take hs, htext⟩
    · rintro ⟨goal, hgoal, s, hs, htext⟩
      rw [← List.take_append_drop k p.steps, List.mem_append] at hs
      rcases hs with hs | hs
      · exact h.flag.mpr ⟨goal, hgoal, s, hs, htext⟩
      · exact hlate goal hgoal ⟨s, hs, htext⟩

end Looked

/-- In every run the flag says whether the conclusion is among the steps up to the last look, and
the steps since are premises; so the flag is exact unless the conclusion is one of these and none of
the steps before. -/
theorem flag_tells_up_to_last_look (moves : List Move) :
    let p := run moves
    let k := empty.lookedIn 0 moves
    (p.isComplete = true ↔
      ∃ goal, p.conclusion = some goal ∧ ∃ s ∈ p.steps.take k, s.content.text = goal.text) ∧
    (∀ s ∈ p.steps.drop k, s.isPremise = true) ∧
    (p.Exact ↔ ∀ goal, p.conclusion = some goal →
      (∃ s ∈ p.steps.drop k, s.content.text = goal.text) → p.isComplete = true) := by
  intro p k
  have hlooked : Looked p k := looked_empty.foldl moves
  exact ⟨hlooked.flag, hlooked.premises, hlooked.exact_iff⟩

set_option maxRecDepth 4000 in
/-- A conclusion that is added as a premise is not seen: neither by a search nor by a review. -/
theorem late_premise_missed :
    let p := run [.conclusion "B".toList, .premise "B".toList]
    ¬p.Exact ∧ (p.search 50).2 = .ok .exhausted ∧ (p.search 50).1.review = .incomplete := by
  intro p
  have hflag : p.isComplete = false := by
    unfold p
    cbv
  have hsteps : p.conclusion.any (fun goal => p.hasText goal.text) = true := by
    unfold p
    cbv
  have hsearch : (p.search 50).2 = .ok .exhausted ∧ (p.search 50).1.review = .incomplete := by
    unfold p
    cbv
  refine ⟨fun hexact => ?_, hsearch⟩
  obtain ⟨goal, hgoal, htext⟩ := (Option.any_eq_true _ _).mp hsteps
  have hcomplete := hexact.mpr ⟨goal, hgoal, hasText_iff.mp htext⟩
  rw [hflag] at hcomplete
  cases hcomplete

end Sentential.Proof
