import Mathlib
import Sentential.Proof.Review
import Sentential.Proofs.RuleDrafts
import Sentential.Proofs.Runs

/-! Derived steps can be derived again. A review of a proof takes them on trust; the trust is
justified, since the rule that a step names, applied to the steps that it refers to, still derives
the step, whatever was added to the proof since. -/

namespace Sentential

theorem Text.length_lower (text : String) : (lower text).length = text.length := by
  rw [lower, String.length_ofList, List.length_map, String.length_toList]

namespace Rule

theorem mem_all (rule : Rule) : rule ∈ all := by
  cases rule <;> decide

theorem nodup_lower_names : (all.map fun rule => Text.lower rule.name).Nodup := by
  decide +kernel

theorem length_abbreviation_lt (rule other : Rule) :
    rule.heading.abbreviation.length < other.name.length := by
  have hshort : ∀ r ∈ all, r.heading.abbreviation.length < 6 := by decide
  have hlong : ∀ r ∈ all, 6 ≤ r.name.length := by decide
  exact (hshort rule rule.mem_all).trans_le (hlong other other.mem_all)

/-- A rule is found by its own name: no two names differ by case alone, and abbreviations are
shorter than names. -/
theorem byName?_name (rule : Rule) : byName? rule.name = some rule := by
  have hsome : (byName? rule.name).isSome = true := by
    rw [byName?, List.find?_isSome]
    exact ⟨rule, rule.mem_all, by simp⟩
  obtain ⟨found, hfound⟩ := Option.isSome_iff_exists.mp hsome
  have hname := List.find?_some hfound
  rw [Bool.or_eq_true, beq_iff_eq, beq_iff_eq] at hname
  rcases hname with hname | hname
  · rw [hfound, List.inj_on_of_nodup_map nodup_lower_names found.mem_all rule.mem_all hname]
  · have hlength := congrArg String.length hname
    have hlt := length_abbreviation_lt found rule
    rw [Text.length_lower, Text.length_lower] at hlength
    omega

theorem name_ne_premise (rule : Rule) : rule.name ≠ "Premise" := by
  cases rule <;> decide

end Rule

/-- What a step rests on: it is a premise, or a rule derives it from steps of the list. -/
inductive Step.Grounded (premises : List Sentence) (steps : List Step) : Step → Prop
  | premise {index : Int} {q : Sentence} {references : References} : q ∈ premises →
      Grounded premises steps ⟨index, .sentence q, .premise, references⟩
  | derived {index : Int} {choices : Choices} {rule : Rule} {indices : List Int}
      {contents : List Content} {t : Sentence} :
      ({ steps } : Proof).contents indices = .ok contents →
      rule.apply choices contents = .ok (some t) →
      Grounded premises steps ⟨index, .sentence t, .rule rule, .steps indices⟩

theorem Step.Grounded.append {premises : List Sentence} {steps : List Step} {s : Step}
    (h : s.Grounded premises steps) (added : List Sentence) (more : List Step) :
    s.Grounded (premises ++ added) (steps ++ more) := by
  cases h with
  | premise hq => exact .premise (List.mem_append_left added hq)
  | derived hcontents happly => exact .derived (Proof.contents_append hcontents more) happly

namespace Proof

/-- Steps that are added later take no ground from those before. -/
theorem Built.grounded {premises : List Sentence} {steps : List Step} (h : Built premises steps) :
    ∀ s ∈ steps, s.Grounded premises steps := by
  induction h with
  | nil =>
    intro s hs
    cases hs
  | premise _ _ _ ih =>
    intro s hs
    rcases List.mem_append.mp hs with hs | hs
    · exact (ih s hs).append _ _
    · rw [List.mem_singleton.mp hs]
      exact .premise (by simp)
  | derived _ hcontents happly _ ih =>
    intro s hs
    rcases List.mem_append.mp hs with hs | hs
    · simpa using (ih s hs).append [] _
    · rw [List.mem_singleton.mp hs]
      exact .derived (contents_append hcontents _) happly

/-- The rule that the step names accepts the steps that it refers to and, for some choices, derives
the step from them. -/
def Replays (p : Proof) (s : Step) : Prop :=
  ∃ rule contents choices t, Rule.byName? s.justification.text = some rule ∧
    p.contents s.references.numbers = .ok contents ∧ rule.accepts contents = .ok true ∧
    rule.apply choices contents = .ok (some t) ∧ s.content = .sentence t

/-- The step is one of the premises. -/
def IsGiven (p : Proof) (s : Step) : Prop :=
  ∃ q ∈ p.premises, s.content = .sentence q

theorem replays_of_grounded {p : Proof} {s : Step} (h : s.Grounded p.premises p.steps)
    (hderived : s.justification.text ≠ "Premise") : p.Replays s := by
  cases h with
  | premise hq => exact absurd rfl hderived
  | @derived index choices rule indices contents t hcontents happly =>
    have haccepts := (Rule.apply_inv happly).1
    rw [← contents_steps] at hcontents
    exact ⟨rule, contents, choices, t, rule.byName?_name, hcontents, haccepts, happly, rfl⟩

theorem isGiven_of_grounded {p : Proof} {s : Step} (h : s.Grounded p.premises p.steps)
    (hpremise : s.justification.text = "Premise") : p.IsGiven s := by
  cases h with
  | premise hq => exact ⟨_, hq, rfl⟩
  | @derived index choices rule indices contents t hcontents happly =>
    exact absurd hpremise rule.name_ne_premise

theorem isFalsePremise_of_isGiven {p : Proof} {s : Step}
    (h : s.justification.text = "Premise" → p.IsGiven s) : p.isFalsePremise s = false := by
  by_cases hpremise : s.justification = .premise
  · obtain ⟨q, hq, hcontent⟩ := h (by rw [hpremise]; rfl)
    have hany : (p.premises.any fun r => s.content.same (.sentence r)) = true := by
      rw [List.any_eq_true]
      exact ⟨q, hq, by simp [hcontent, Content.same, Sentence.sameFormula]⟩
    rw [isFalsePremise, hany]
    simp
  · simp [isFalsePremise, Step.isPremise, hpremise]

/-- A review that meets a false premise has found one among the steps. -/
theorem exists_of_review_eq_falsePremise {p : Proof} {i : Int} (h : p.review = .falsePremise i) :
    ∃ s ∈ p.steps, p.isFalsePremise s = true := by
  unfold review at h
  split at h
  · cases h
  · split at h
    · cases h
    · split at h
      · next s hfound => exact ⟨s, List.mem_of_find?_eq_some hfound, List.find?_some hfound⟩
      · split at h <;> cases h

/-- In every run each step that is not called a premise replays in the proof as it stands, each
other step is one of the premises, and so no review meets a false premise. -/
theorem steps_replay (moves : List Move) :
    let p := run moves
    (∀ s ∈ p.steps, s.justification.text ≠ "Premise" → p.Replays s) ∧
      (∀ s ∈ p.steps, s.justification.text = "Premise" → p.IsGiven s) ∧
      ∀ i, p.review ≠ .falsePremise i := by
  intro p
  have hgrounded := (reachable_run moves).wellBuilt.built.grounded
  have hgiven : ∀ s ∈ p.steps, s.justification.text = "Premise" → p.IsGiven s :=
    fun s hs hpremise => isGiven_of_grounded (hgrounded s hs) hpremise
  refine ⟨fun s hs hderived => replays_of_grounded (hgrounded s hs) hderived, hgiven, ?_⟩
  intro i hreview
  obtain ⟨s, hs, hfalse⟩ := exists_of_review_eq_falsePremise hreview
  rw [isFalsePremise_of_isGiven (hgiven s hs)] at hfalse
  cases hfalse

/-- A premise that comes after a derived step, and one that was there before a proof was cleared, do
not change what the step's references mean. -/
theorem steps_replay_of_modus_ponens :
    let moves : List Move := [.premise "C".toList, .clear, .premise "A → B".toList,
      .premise "A".toList, .rule {} "mp" (.steps [1, 2]), .premise "C".toList]
    (run moves).steps.map (fun s => s.justification.text) =
        ["Premise", "Premise", "Modus Ponens", "Premise"] ∧
      ∃ s ∈ (run moves).steps, s.justification.text = "Modus Ponens" ∧ (run moves).Replays s := by
  intro moves
  have htexts : (run moves).steps.map (fun s => s.justification.text) =
      ["Premise", "Premise", "Modus Ponens", "Premise"] := by
    unfold moves
    cbv
  refine ⟨htexts, ?_⟩
  have hmem : "Modus Ponens" ∈ (run moves).steps.map fun s => s.justification.text := by
    rw [htexts]
    decide
  obtain ⟨s, hs, hname⟩ := List.mem_map.mp hmem
  exact ⟨s, hs, hname, (steps_replay moves).1 s hs (by rw [hname]; decide)⟩

end Proof

end Sentential
