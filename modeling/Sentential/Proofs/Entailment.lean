import Sentential.Argument
import Sentential.Proofs.Meaning

/-! Entailment and the search for counterexamples. The value of a formula depends on its letters
only, and every valuation agrees on a list of letters with one of the assignments to it. So the
search for a counterexample comes back with none exactly if the premises entail the conclusion. -/

namespace Sentential

namespace Formula

/-- The value of a formula depends on its letters only. -/
theorem eval_congr {f : Formula} {v w : Char → Bool} (h : ∀ c ∈ f.letters, v c = w c) :
    f.eval v = f.eval w := by
  induction f with
  | letter c => exact h c (by simp [letters])
  | not f ih => rw [eval_not, eval_not, ih h]
  | binary c f g ihf ihg =>
    rw [eval_binary, eval_binary, ihf fun a ha => h a (mem_mergeLetters.mpr (.inl ha)),
      ihg fun a ha => h a (mem_mergeLetters.mpr (.inr ha))]

end Formula

/-- The assignment that gives the letters the values of a valuation. -/
def Assignment.ofValuation (v : Char → Bool) (letters : List Char) : Assignment Bool :=
  letters.map fun c => (c, v c)

namespace Assignment

theorem ofValuation_mem (v : Char → Bool) (letters : List Char) :
    ofValuation v letters ∈ assignments letters := by
  induction letters with
  | nil => simp [ofValuation, assignments]
  | cons c rest ih =>
    rw [assignments, List.mem_append, List.mem_map, List.mem_map]
    cases hc : v c with
    | true => exact .inl ⟨_, ih, by simp [ofValuation, hc]⟩
    | false => exact .inr ⟨_, ih, by simp [ofValuation, hc]⟩

theorem lookup_ofValuation {v : Char → Bool} {letters : List Char} {c : Char} (hc : c ∈ letters) :
    (ofValuation v letters).lookup c = some (v c) := by
  induction letters with
  | nil => cases hc
  | cons a rest ih =>
    rw [ofValuation, List.map_cons, List.lookup_cons]
    by_cases hca : c = a
    · simp [hca]
    · rw [beq_false_of_ne hca]
      exact ih ((List.mem_cons.mp hc).resolve_left hca)

theorem valuation_ofValuation {v : Char → Bool} {letters : List Char} {c : Char}
    (hc : c ∈ letters) : (ofValuation v letters).valuation c = v c := by
  rw [valuation, lookup_ofValuation hc]
  rfl

theorem covers_of_mem {letters : List Char} {values : Assignment Bool}
    (h : values ∈ assignments letters) : values.Covers letters := by
  induction letters generalizing values with
  | nil => exact fun c hc => nomatch hc
  | cons a rest ih =>
    rw [assignments, List.mem_append, List.mem_map, List.mem_map] at h
    obtain ⟨b, tail, htail, rfl⟩ : ∃ b, ∃ tail ∈ assignments rest, (a, b) :: tail = values :=
      h.elim (⟨true, ·⟩) (⟨false, ·⟩)
    intro c hc
    rw [List.lookup_cons]
    by_cases hca : c = a
    · simp [hca]
    · rw [beq_false_of_ne hca]
      exact ih htail c ((List.mem_cons.mp hc).resolve_left hca)

theorem covers_of_subset {letters listed : List Char} {values : Assignment Bool}
    (hin : values ∈ assignments letters) (hletters : ∀ c ∈ listed, c ∈ letters) :
    values.Covers listed :=
  fun c hc => covers_of_mem hin c (hletters c hc)

section

variable {letters : List Char} {check : Assignment Bool → Bool} {P : (Char → Bool) → Prop}

/-- A check of assignments that decides a property of valuations, which depends on the letters only,
passes all assignments to the letters exactly if all valuations have the property. -/
theorem all_assignments_iff
    (hcheck : ∀ values ∈ assignments letters, (check values = true ↔ P values.valuation))
    (hP : ∀ v w, (∀ c ∈ letters, v c = w c) → P v → P w) :
    (assignments letters).all check = true ↔ ∀ v, P v := by
  rw [List.all_eq_true]
  constructor
  · intro h v
    have hin := ofValuation_mem v letters
    exact hP _ v (fun _ hc => valuation_ofValuation hc) ((hcheck _ hin).mp (h _ hin))
  · intro h values hin
    exact (hcheck values hin).mpr (h values.valuation)

/-- Likewise it passes some assignment exactly if some valuation has the property. -/
theorem any_assignments_iff
    (hcheck : ∀ values ∈ assignments letters, (check values = true ↔ P values.valuation))
    (hP : ∀ v w, (∀ c ∈ letters, v c = w c) → P v → P w) :
    (assignments letters).any check = true ↔ ∃ v, P v := by
  rw [List.any_eq_true]
  constructor
  · rintro ⟨values, hin, h⟩
    exact ⟨values.valuation, (hcheck values hin).mp h⟩
  · rintro ⟨v, hv⟩
    have hin := ofValuation_mem v letters
    refine ⟨_, hin, (hcheck _ hin).mpr ?_⟩
    exact hP v _ (fun _ hc => (valuation_ofValuation hc).symm) hv

end

end Assignment

namespace Sentence

/-- The sentence was read from a text. -/
def IsRead (s : Sentence) : Prop :=
  ∃ text, read text = .ok s

/-- The sentence has a formula, and it is true under the valuation. -/
def IsTrue (v : Char → Bool) (s : Sentence) : Prop :=
  ∃ f, s.formula = some f ∧ f.eval v = true

theorem IsRead.formula {s : Sentence} (h : s.IsRead) :
    ∃ f, s.formula = some f ∧ s.letters = f.letters := by
  obtain ⟨text, h⟩ := h
  obtain ⟨_, f, -, -, rfl⟩ := derives_of_read h
  exact ⟨f, rfl, rfl⟩

theorem IsRead.letters_eq {s : Sentence} (h : s.IsRead) {f : Formula} (hf : s.formula = some f) :
    s.letters = f.letters := by
  obtain ⟨g, hg, hletters⟩ := h.formula
  rwa [Option.some.inj (hf.symm.trans hg)]

theorem isTrue_congr {s : Sentence} (h : s.IsRead) {v w : Char → Bool}
    (hvw : ∀ c ∈ s.letters, v c = w c) : s.IsTrue v ↔ s.IsTrue w := by
  obtain ⟨f, hf, hletters⟩ := h.formula
  simp only [IsTrue, hf, Option.some.injEq, exists_eq_left']
  rw [Formula.eval_congr (hletters ▸ hvw)]

section

variable {s : Sentence} {values : Assignment Bool}

theorem holdsUnder_iff (h : s.IsRead) (hcovers : values.Covers s.letters) :
    s.holdsUnder values = true ↔ s.IsTrue values.valuation := by
  obtain ⟨f, hf, hletters⟩ := h.formula
  simp [holdsUnder, evaluate_of_covers hf hcovers (hletters ▸ hcovers), IsTrue, hf]

theorem failsUnder_iff (h : s.IsRead) (hcovers : values.Covers s.letters) :
    s.failsUnder values = true ↔ ¬s.IsTrue values.valuation := by
  obtain ⟨f, hf, hletters⟩ := h.formula
  simp [failsUnder, evaluate_of_covers hf hcovers (hletters ▸ hcovers), IsTrue, hf]

end

theorem mem_lettersOf {c : Char} {sentences : List Sentence} :
    c ∈ lettersOf sentences ↔ ∃ s ∈ sentences, c ∈ s.letters := by
  induction sentences with
  | nil => simp [lettersOf]
  | cons s rest ih =>
    rw [lettersOf, List.foldr_cons, Formula.mem_mergeLetters, ← lettersOf, ih]
    simp

end Sentence

/-- Every valuation that makes the premises true makes the sentence true. -/
def Entails (premises : List Sentence) (s : Sentence) : Prop :=
  ∀ v, (∀ q ∈ premises, q.IsTrue v) → s.IsTrue v

namespace Argument

variable {premises : List Sentence} {goal : Sentence}

theorem allHold_iff (hpremises : ∀ q ∈ premises, q.IsRead) {values : Assignment Bool}
    (hcovers : ∀ q ∈ premises, values.Covers q.letters) :
    allHold values premises = true ↔ ∀ q ∈ premises, q.IsTrue values.valuation := by
  rw [allHold, List.all_eq_true]
  exact forall₂_congr fun q hq => Sentence.holdsUnder_iff (hpremises q hq) (hcovers q hq)

theorem allTrue_congr (hpremises : ∀ q ∈ premises, q.IsRead) {v w : Char → Bool}
    (hvw : ∀ q ∈ premises, ∀ c ∈ q.letters, v c = w c) :
    (∀ q ∈ premises, q.IsTrue v) ↔ ∀ q ∈ premises, q.IsTrue w :=
  forall₂_congr fun q hq => Sentence.isTrue_congr (hpremises q hq) (hvw q hq)

/-- The valuation makes the premises true and the conclusion false. -/
def Refuted (premises : List Sentence) (goal : Sentence) (v : Char → Bool) : Prop :=
  (∀ q ∈ premises, q.IsTrue v) ∧ ¬goal.IsTrue v

theorem not_exists_refuted_iff : (¬∃ v, Refuted premises goal v) ↔ Entails premises goal := by
  simp [Refuted, Entails]

/-- An assignment to all letters is taken for a counterexample if it is one. -/
theorem refutes_iff (hpremises : ∀ q ∈ premises, q.IsRead) (hgoal : goal.IsRead)
    {values : Assignment Bool} (hcovers : ∀ q ∈ premises ++ [goal], values.Covers q.letters) :
    (allHold values premises && goal.failsUnder values) = true ↔
      Refuted premises goal values.valuation := by
  have hfront : ∀ q ∈ premises, values.Covers q.letters := fun q hq => hcovers q (by simp [hq])
  rw [Bool.and_eq_true, allHold_iff hpremises hfront,
    Sentence.failsUnder_iff hgoal (hcovers goal (by simp)), Refuted]

section

variable {letters : List Char}

/-- In whatever order it takes the letters, the search finds a counterexample if there is one. -/
theorem isSome_counterexampleOver_iff (hpremises : ∀ q ∈ premises, q.IsRead)
    (hgoal : goal.IsRead) (hletters : ∀ q ∈ premises ++ [goal], ∀ c ∈ q.letters, c ∈ letters) :
    (counterexampleOver letters premises goal).isSome = true ↔
      ∃ v, Refuted premises goal v := by
  rw [counterexampleOver, List.find?_isSome, ← List.any_eq_true]
  refine Assignment.any_assignments_iff (fun values hin => ?_) fun v w hvw => ?_
  · exact refutes_iff hpremises hgoal fun q hq => Assignment.covers_of_subset hin (hletters q hq)
  · have hsame : ∀ q ∈ premises ++ [goal], ∀ c ∈ q.letters, v c = w c :=
      fun q hq c hc => hvw c (hletters q hq c hc)
    rintro ⟨htrue, hfalse⟩
    constructor
    · exact (allTrue_congr hpremises fun q hq => hsame q (by simp [hq])).mp htrue
    · exact mt (Sentence.isTrue_congr hgoal (hsame goal (by simp))).mpr hfalse

theorem counterexampleOver_eq_none_iff (hpremises : ∀ q ∈ premises, q.IsRead)
    (hgoal : goal.IsRead) (hletters : ∀ q ∈ premises ++ [goal], ∀ c ∈ q.letters, c ∈ letters) :
    counterexampleOver letters premises goal = none ↔ Entails premises goal := by
  rw [← Option.not_isSome_iff_eq_none, isSome_counterexampleOver_iff hpremises hgoal hletters,
    not_exists_refuted_iff]

end

/-- There is no counterexample exactly if the premises entail the conclusion. -/
theorem counterexample_eq_none_iff (hpremises : ∀ q ∈ premises, q.IsRead) (hgoal : goal.IsRead) :
    counterexample premises goal = none ↔ Entails premises goal :=
  counterexampleOver_eq_none_iff hpremises hgoal fun q hq _ hc =>
    Sentence.mem_lettersOf.mpr ⟨q, hq, hc⟩

end Argument

end Sentential
