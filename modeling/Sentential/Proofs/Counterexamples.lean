import Mathlib
import Sentential.Proofs.Classification

/-! What the search for a counterexample and the check of an argument decide. The search comes back
with an assignment to the letters of the argument and to no others, which makes the premises true
and the conclusion false, whenever a valuation does so. The check turns an argument down exactly if
no valuation makes its premises true and its conclusion is not always true; such an argument has no
counterexample. -/

namespace Sentential

namespace Formula

theorem pairwise_insertLetter {c : Char} {letters : List Char} (h : letters.Pairwise (· < ·)) :
    (insertLetter c letters).Pairwise (· < ·) := by
  induction letters with
  | nil => simp [insertLetter]
  | cons d rest ih =>
    obtain ⟨hd, hrest⟩ := List.pairwise_cons.mp h
    rw [insertLetter]
    split
    · next hlt =>
      refine List.pairwise_cons.mpr ⟨fun a ha => ?_, h⟩
      rcases List.mem_cons.mp ha with rfl | ha
      · exact hlt
      · exact hlt.trans (hd a ha)
    · next hnot =>
      split
      · exact h
      · next hne =>
        refine List.pairwise_cons.mpr ⟨fun a ha => ?_, ih hrest⟩
        rcases mem_insertLetter.mp ha with rfl | ha
        · exact lt_of_le_of_ne (not_lt.mp hnot) (Ne.symm hne)
        · exact hd a ha

theorem pairwise_mergeLetters {xs ys : List Char} (h : ys.Pairwise (· < ·)) :
    (mergeLetters xs ys).Pairwise (· < ·) := by
  induction xs with
  | nil => exact h
  | cons c rest ih => exact pairwise_insertLetter ih

end Formula

/-- The letters of several sentences are listed in increasing order, each once. -/
theorem Sentence.pairwise_lettersOf (sentences : List Sentence) :
    (lettersOf sentences).Pairwise (· < ·) := by
  induction sentences with
  | nil => exact .nil
  | cons s rest ih => exact Formula.pairwise_mergeLetters ih

theorem Sentence.nodup_lettersOf (sentences : List Sentence) : (lettersOf sentences).Nodup :=
  (pairwise_lettersOf sentences).imp ne_of_lt

theorem Assignment.keys_of_mem {letters : List Char} {values : Assignment Bool}
    (h : values ∈ assignments letters) : values.map Prod.fst = letters := by
  induction letters generalizing values with
  | nil => simpa [assignments] using h
  | cons c rest ih =>
    rw [assignments, List.mem_append, List.mem_map, List.mem_map] at h
    rcases h with ⟨tail, htail, rfl⟩ | ⟨tail, htail, rfl⟩
    · rw [List.map_cons, ih htail]
    · rw [List.map_cons, ih htail]

namespace Sentence

variable {s : Sentence} {values : Assignment Bool}

theorem evaluate_of_holdsUnder (h : s.holdsUnder values = true) : s.evaluate values = .ok true := by
  unfold holdsUnder at h
  split at h
  · next heval => rw [heval, h]
  · cases h

theorem evaluate_of_failsUnder (h : s.failsUnder values = true) :
    s.evaluate values = .ok false := by
  unfold failsUnder at h
  split at h
  · next b heval =>
    obtain rfl : b = false := by simpa using h
    exact heval
  · cases h

end Sentence

namespace Argument

/-- The assignment has one value for each letter of the argument and for no other letter; under it
the premises are true and the conclusion is false. -/
structure IsCounterexample (premises : List Sentence) (goal : Sentence)
    (values : Assignment Bool) : Prop where
  once : (values.map Prod.fst).Nodup
  letters : ∀ c, c ∈ values.map Prod.fst ↔ ∃ q ∈ premises ++ [goal], c ∈ q.letters
  premises : ∀ q ∈ premises, q.evaluate values = .ok true
  conclusion : goal.evaluate values = .ok false

variable {premises : List Sentence} {goal : Sentence} {own letters : List Char}

theorem isCounterexample_of_found
    (horder : letters.Perm (Sentence.lettersOf (premises ++ [goal]))) {values : Assignment Bool}
    (h : counterexampleOver letters premises goal = some values) :
    IsCounterexample premises goal values := by
  have hkeys := Assignment.keys_of_mem (List.mem_of_find?_eq_some h)
  have htest := List.find?_some h
  rw [Bool.and_eq_true, allHold, List.all_eq_true] at htest
  obtain ⟨hpremises, hgoal⟩ := htest
  refine ⟨?_, fun c => ?_, fun q hq => ?_, Sentence.evaluate_of_failsUnder hgoal⟩
  · rw [hkeys, horder.nodup_iff]
    exact Sentence.nodup_lettersOf _
  · rw [hkeys, horder.mem_iff, Sentence.mem_lettersOf]
  · exact Sentence.evaluate_of_holdsUnder (hpremises q hq)

theorem isConsistentOver_iff (hpremises : ∀ q ∈ premises, q.IsRead)
    (hletters : ∀ q ∈ premises, ∀ c ∈ q.letters, c ∈ letters) :
    isConsistentOver letters premises = true ↔ ∃ v, ∀ q ∈ premises, q.IsTrue v := by
  refine Assignment.any_assignments_iff (fun values hin => ?_) fun v w hvw => ?_
  · exact allHold_iff hpremises fun q hq => Assignment.covers_of_subset hin (hletters q hq)
  · exact (allTrue_congr hpremises fun q hq c hc => hvw c (hletters q hq c hc)).mp

theorem isValid_weighOver :
    (weighOver own letters premises goal).isValid = false ↔
      isConsistentOver letters premises = false ∧ goal.isTautologyOver own = false := by
  unfold weighOver
  cases goal.isTautologyOver own <;> cases isConsistentOver letters premises <;> decide

section

variable (hpremises : ∀ q ∈ premises, q.IsRead) (hgoal : goal.IsRead)
  (hown : ∀ c ∈ goal.letters, c ∈ own) (hletters : ∀ q ∈ premises, ∀ c ∈ q.letters, c ∈ letters)

include hpremises hgoal hown hletters

theorem isValid_weighOver_iff :
    (weighOver own letters premises goal).isValid = false ↔
      (¬∃ v, ∀ q ∈ premises, q.IsTrue v) ∧ ¬∀ v, goal.IsTrue v := by
  rw [isValid_weighOver, ← isConsistentOver_iff hpremises hletters,
    ← Sentence.isTautologyOver_iff hgoal hown, Bool.not_eq_true, Bool.not_eq_true]

/-- What the check finds does not depend on the order in which the letters are taken. -/
theorem check_eq_weighOver (hne : premises ≠ []) :
    check premises (some goal) = weighOver own letters premises goal := by
  have htautology : goal.isTautologyOver goal.letters = goal.isTautologyOver own := by
    rw [Bool.eq_iff_iff, Sentence.isTautologyOver_iff hgoal fun _ hc => hc,
      Sentence.isTautologyOver_iff hgoal hown]
  have hconsistent : isConsistentOver (Sentence.lettersOf (premises ++ [goal])) premises =
      isConsistentOver letters premises := by
    have hall : ∀ q ∈ premises, ∀ c ∈ q.letters, c ∈ Sentence.lettersOf (premises ++ [goal]) :=
      fun q hq c hc => Sentence.mem_lettersOf.mpr ⟨q, by simp [hq], hc⟩
    rw [Bool.eq_iff_iff, isConsistentOver_iff hpremises hall,
      isConsistentOver_iff hpremises hletters]
  rw [check, if_neg (by simpa using hne), weighOver, weighOver, htautology, hconsistent]

end

/-- In whatever order the letters are taken, what the search finds is a counterexample, it finds one
if a valuation makes the premises true and the conclusion false, and it finds none exactly if the
premises entail the conclusion. If there are premises, the check turns the argument down exactly if
no valuation makes them all true and the conclusion is not always true, and so never if the argument
has a counterexample. -/
theorem counterexample_search_decides {premises : List Sentence} {goal : Sentence}
    (hpremises : ∀ q ∈ premises, q.IsRead) (hgoal : goal.IsRead) {own letters : List Char}
    (hown : own.Perm goal.letters)
    (horder : letters.Perm (Sentence.lettersOf (premises ++ [goal]))) :
    (∀ values, counterexampleOver letters premises goal = some values →
      IsCounterexample premises goal values) ∧
    ((∃ v, Refuted premises goal v) →
      ∃ values, counterexampleOver letters premises goal = some values) ∧
    (counterexampleOver letters premises goal = none ↔ Entails premises goal) ∧
    (premises ≠ [] →
      check premises (some goal) = weighOver own letters premises goal ∧
      ((check premises (some goal)).isValid = false ↔
        (¬∃ v, ∀ q ∈ premises, q.IsTrue v) ∧ ¬∀ v, goal.IsTrue v) ∧
      ((∃ v, Refuted premises goal v) → (check premises (some goal)).isValid = true)) := by
  have hown' : ∀ c ∈ goal.letters, c ∈ own := fun c hc => hown.mem_iff.mpr hc
  have hall : ∀ q ∈ premises ++ [goal], ∀ c ∈ q.letters, c ∈ letters := fun q hq c hc =>
    horder.mem_iff.mpr (Sentence.mem_lettersOf.mpr ⟨q, hq, hc⟩)
  have hletters : ∀ q ∈ premises, ∀ c ∈ q.letters, c ∈ letters := fun q hq =>
    hall q (by simp [hq])
  refine ⟨fun values => isCounterexample_of_found horder, fun hrefuted => ?_,
    counterexampleOver_eq_none_iff hpremises hgoal hall, fun hne => ?_⟩
  · rw [← isSome_counterexampleOver_iff hpremises hgoal hall] at hrefuted
    exact Option.isSome_iff_exists.mp hrefuted
  · have hcheck := check_eq_weighOver hpremises hgoal hown' hletters hne
    have hvalid := isValid_weighOver_iff hpremises hgoal hown' hletters
    rw [← hcheck] at hvalid
    refine ⟨hcheck, hvalid, ?_⟩
    -- a counterexample makes the premises true, so they do not contradict each other
    rintro ⟨v, htrue, -⟩
    rw [← Bool.not_eq_false, hvalid]
    exact fun hdown => hdown.1 ⟨v, htrue⟩

theorem counterexample_search_decides_of_disjunction :
    let p : Sentence := ⟨"A ∨ B".toList, some (.binary .or (.letter 'A') (.letter 'B')), ['A', 'B']⟩
    let goal : Sentence := ⟨"A".toList, some (.letter 'A'), ['A']⟩
    Sentence.read p.source = .ok p ∧ Sentence.read goal.source = .ok goal ∧
      ['B', 'A'].Perm (Sentence.lettersOf [p, goal]) ∧
      counterexampleOver ['B', 'A'] [p] goal = some [('B', true), ('A', false)] ∧
      IsCounterexample [p] goal [('B', true), ('A', false)] ∧ ¬Entails [p] goal ∧
      check [p] (some goal) = .fit := by
  intro p goal
  obtain ⟨hp, hgoal⟩ : Sentence.read p.source = .ok p ∧ Sentence.read goal.source = .ok goal := by
    unfold p goal
    constructor
    · cbv
    · cbv
  have horder : ['B', 'A'].Perm (Sentence.lettersOf [p, goal]) := by decide
  have hfound : counterexampleOver ['B', 'A'] [p] goal = some [('B', true), ('A', false)] := rfl
  have hread : ∀ q ∈ [p], q.IsRead := by
    intro q hq
    rw [List.mem_singleton.mp hq]
    exact ⟨_, hp⟩
  obtain ⟨hsound, -, hnone, hcheck⟩ :=
    counterexample_search_decides hread ⟨_, hgoal⟩ (show ['A'].Perm goal.letters by decide) horder
  refine ⟨hp, hgoal, horder, hfound, hsound _ hfound, ?_, ?_⟩
  · rw [← hnone, hfound]
    simp
  · rw [(hcheck (by simp)).1]
    unfold p goal
    decide

end Argument

end Sentential
