import Mathlib
import Sentential.Proofs.CanonicalText
import Sentential.Proofs.RuleDrafts
import Sentential.Proofs.Runs

/-! Which steps of a proof the premises entail. A rule that leaves a part bare in a place that is
read more tightly, or lets it go on a chain with denials, derives a sentence of which nothing can be
said; such a step is loose. All other steps are entailed as soon as the steps before them are.
Hence all steps of a proof are entailed exactly if its loose steps are. -/

namespace Sentential

/-- The rule derives the sentence from the contents, with some choices, by a draft that fits. -/
def Rule.DerivesTightly (rule : Rule) (contents : List Content) (s : Sentence) : Prop :=
  ∃ choices quotes d, rule.apply choices contents = .ok (some s) ∧ Quoted contents quotes ∧
    rule.draft choices quotes = some d ∧ d.fits .iff = true

namespace Step

/-- The step was derived from other steps, and no draft that fits accounts for it. -/
def IsLoose (steps : List Step) (s : Step) : Prop :=
  ∃ rule indices contents t, s.justification = .rule rule ∧ s.references = .steps indices ∧
    s.content = .sentence t ∧ ({ steps } : Proof).contents indices = .ok contents ∧
    ¬rule.DerivesTightly contents t

/-- The step holds a sentence that the premises entail. -/
def IsEntailed (premises : List Sentence) (s : Step) : Prop :=
  ∃ t, s.content = .sentence t ∧ Entails premises t

end Step

theorem Rule.isRead_of_apply {rule : Rule} {choices : Choices} {contents : List Content}
    {s : Sentence} (h : rule.apply choices contents = .ok (some s)) : s.IsRead := by
  obtain ⟨_, text, _, hread⟩ := Rule.apply_inv h
  exact ⟨text, hread⟩

/-- Sentences that were read can be quoted. -/
theorem Rule.exists_quoted {contents : List Content}
    (h : ∀ c ∈ contents, ∃ t, c = .sentence t ∧ t.IsRead) :
    ∃ quotes, Quoted contents quotes ∧ ∀ q ∈ quotes, q.IsRead := by
  induction contents with
  | nil => exact ⟨[], .nil, fun _ hq => nomatch hq⟩
  | cons c rest ih =>
    obtain ⟨t, rfl, text, hread⟩ := h c (by simp)
    obtain ⟨q, hquote, hq⟩ := Sentence.quote_of_read hread
    obtain ⟨quotes, hquoted, hquotes⟩ := ih fun d hd => h d (by simp [hd])
    exact ⟨q :: quotes, .cons hquote hquoted, by simpa [hq] using hquotes⟩

/-- A tightly derived sentence is entailed if the contents are. -/
theorem Rule.DerivesTightly.entails {rule : Rule} {contents : List Content} {s : Sentence}
    {premises : List Sentence} (h : rule.DerivesTightly contents s)
    (hcontents : ∀ c ∈ contents, ∃ t, c = .sentence t ∧ t.IsRead ∧ Entails premises t) :
    Entails premises s := by
  obtain ⟨choices, quotes, d, happly, hquoted, hdraft, hfits⟩ := h
  have hquotes : ∀ q ∈ quotes, q.IsRead ∧
      ∀ v, (∀ r ∈ premises, r.IsTrue v) → q.formula.eval v = true := by
    intro q hq
    obtain ⟨c, hc, hquote⟩ := hquoted.exists_content hq
    obtain ⟨t, rfl, ⟨text, hread⟩, hentails⟩ := hcontents c hc
    obtain ⟨q', hquote', hq'⟩ := Sentence.quote_of_read hread
    obtain rfl : q' = q := Option.some.inj (hquote'.symm.trans hquote)
    refine ⟨hq', fun v hv => ?_⟩
    obtain ⟨f, hf, rfl⟩ := Option.map_eq_some_iff.mp hquote
    obtain ⟨g, hg, htrue⟩ := hentails v hv
    obtain rfl : f = g := Option.some.inj (hf.symm.trans hg)
    exact htrue
  obtain ⟨f, hf, htrue⟩ :=
    Rule.apply_of_draft hquoted (fun q hq => (hquotes q hq).1) hdraft hfits happly
  exact fun v hv => ⟨f, hf, htrue v fun q hq => (hquotes q hq).2 v hv⟩

namespace Proof

theorem Built.isRead {premises : List Sentence} {steps : List Step} (h : Built premises steps) :
    (∀ q ∈ premises, q.IsRead) ∧ ∀ s ∈ steps, ∃ t, s.content = .sentence t ∧ t.IsRead := by
  induction h with
  | nil => simp
  | premise _ hread _ ih =>
    simp only [List.mem_append, List.mem_singleton]
    refine ⟨?_, ?_⟩
    · rintro q (hq | rfl)
      · exact ih.1 q hq
      · exact ⟨_, hread⟩
    · rintro s (hs | rfl)
      · exact ih.2 s hs
      · exact ⟨_, rfl, _, hread⟩
  | derived _ _ happly _ ih =>
    simp only [List.mem_append, List.mem_singleton]
    refine ⟨ih.1, ?_⟩
    rintro s (hs | rfl)
    · exact ih.2 s hs
    · exact ⟨_, rfl, Rule.isRead_of_apply happly⟩

/-- The steps are entailed if the loose ones are, whatever premises and steps come after them. -/
theorem Built.isEntailed {premises : List Sentence} {steps : List Step} (h : Built premises steps)
    {all : List Sentence} (hall : ∀ q ∈ premises, q ∈ all) (more : List Step)
    (hloose : ∀ s ∈ steps, s.IsLoose (steps ++ more) → s.IsEntailed all) :
    ∀ s ∈ steps, s.IsEntailed all := by
  induction h generalizing more with
  | nil => exact fun _ hs => nomatch hs
  | @premise premises steps text s hbuilt hread _ ih =>
    have hbefore := ih (fun q hq => hall q (by simp [hq])) (_ :: more) fun s hs hl =>
      hloose s (by simp [hs]) (by simpa using hl)
    simp only [List.mem_append, List.mem_singleton]
    rintro t (ht | rfl)
    · exact hbefore t ht
    · exact ⟨s, rfl, fun v hv => hv s (hall s (by simp))⟩
  | @derived premises steps choices rule indices contents s hbuilt hcontents happly _ ih =>
    have hbefore := ih hall (_ :: more) fun s hs hl => hloose s (by simp [hs]) (by simpa using hl)
    simp only [List.mem_append, List.mem_singleton]
    rintro t (ht | rfl)
    · exact hbefore t ht
    · by_cases htight : rule.DerivesTightly contents s
      · refine ⟨s, rfl, htight.entails fun c hc => ?_⟩
        obtain ⟨u, hu, rfl⟩ := exists_step_of_mem_contents hcontents hc
        obtain ⟨t, ht, hread⟩ := hbuilt.isRead.2 u hu
        obtain ⟨t', ht', hentails⟩ := hbefore u hu
        obtain rfl : t = t' := Content.sentence.inj (ht.symm.trans ht')
        exact ⟨t, ht, hread, hentails⟩
      · refine hloose _ (by simp) ⟨rule, indices, contents, s, rfl, rfl, rfl, ?_, htight⟩
        rw [List.append_assoc]
        exact contents_append hcontents _

/-- The contents of steps of a proof are sentences that were read. -/
theorem WellBuilt.contents_inv {p : Proof} (h : WellBuilt p) {indices : List Int}
    {contents : List Content} (hcontents : p.contents indices = .ok contents) :
    ∃ sentences : List Sentence, contents = sentences.map .sentence ∧
      ∀ t ∈ sentences, t.IsRead ∧ ∃ s ∈ p.steps, s.content = .sentence t := by
  have hall : ∀ c ∈ contents, c ∈ Set.range Content.sentence := by
    intro c hc
    obtain ⟨s, hs, rfl⟩ := exists_step_of_mem_contents hcontents hc
    obtain ⟨t, ht, -⟩ := h.built.isRead.2 s hs
    exact ⟨t, ht.symm⟩
  obtain ⟨sentences, rfl⟩ : contents ∈ Set.range (List.map Content.sentence) := by
    rw [Set.range_list_map]
    exact hall
  refine ⟨sentences, rfl, fun t ht => ?_⟩
  obtain ⟨s, hs, hst⟩ := exists_step_of_mem_contents hcontents (List.mem_map_of_mem ht)
  obtain ⟨u, hu, hread⟩ := h.built.isRead.2 s hs
  obtain rfl : u = t := Content.sentence.inj (hu.symm.trans hst)
  exact ⟨hread, s, hs, hst⟩

/-- All steps of the proof are entailed by its premises. -/
def IsSound (p : Proof) : Prop :=
  ∀ s ∈ p.steps, s.IsEntailed p.premises

theorem WellBuilt.isSound_iff {p : Proof} (h : WellBuilt p) :
    p.IsSound ↔ ∀ s ∈ p.steps, s.IsLoose p.steps → s.IsEntailed p.premises :=
  ⟨fun hsound s hs _ => hsound s hs, fun hloose =>
    h.built.isEntailed (fun _ hq => hq) [] (by simpa using hloose)⟩

/-- In a complete proof some step is the conclusion, which has no counterexample exactly if the step
is entailed. -/
theorem WellBuilt.exists_goal_step {p : Proof} (h : WellBuilt p) (hcomplete : p.isComplete = true) :
    ∃ goal, p.conclusion = some goal ∧ ∃ s ∈ p.steps, s.content.text = goal.text ∧
      (Argument.counterexample p.premises goal = none ↔ s.IsEntailed p.premises) := by
  obtain ⟨goal, hgoal, htext⟩ := h.complete hcomplete
  obtain ⟨s, hs, htext⟩ : ∃ s ∈ p.steps, s.content.text = goal.text := by
    simpa [hasText] using htext
  obtain ⟨t, ht, hread⟩ := h.built.isRead.2 s hs
  refine ⟨goal, hgoal, s, hs, htext, ?_⟩
  have hformula : t.formula = goal.formula := by
    refine Sentence.formula_eq_of_text_eq hread (h.goal goal hgoal) ?_
    rw [← htext, ht]
    rfl
  rw [Argument.counterexample_eq_none_iff h.built.isRead.1 (h.goal goal hgoal)]
  simp [Step.IsEntailed, ht, Entails, Sentence.IsTrue, hformula]

theorem wellBuilt_search {p : Proof} (h : WellBuilt p) (limit : Int) :
    SearchKeeps WellBuilt (p.search limit) :=
  search_keeps (fun _ _ _ _ _ _ hp happly => hp.of_change (.derived happly)) limit h

/-- In every run all steps are entailed by the premises exactly if the loose steps are; and where a
search succeeds, the conclusion has no counterexample exactly if the step that it was found at is
entailed. -/
theorem isSound_iff_loose_steps_entailed (moves : List Move) (limit : Int) :
    let p := run moves
    let q := (p.search limit).1
    (p.IsSound ↔ ∀ s ∈ p.steps, s.IsLoose p.steps → s.IsEntailed p.premises) ∧
      ∀ result, (p.search limit).2 = .ok result → result.success = true →
        ∃ goal, q.conclusion = some goal ∧ ∃ s ∈ q.steps, s.content.text = goal.text ∧
          (Argument.counterexample q.premises goal = none ↔ s.IsEntailed q.premises) := by
  intro p q
  have hp : WellBuilt p := (reachable_run moves).wellBuilt
  have hq := wellBuilt_search hp limit
  exact ⟨hp.isSound_iff, fun result hresult hsuccess =>
    hq.proof.exists_goal_step (hq.complete result hresult hsuccess)⟩

/-- The search succeeds although the conclusion has a counterexample. -/
def misleads (p : Proof) (limit : Int) : Bool :=
  match p.search limit with
  | (q, .ok result) => result.success && q.conclusion.any fun goal =>
    (Argument.counterexample q.premises goal).isSome
  | _ => false

theorem WellBuilt.not_isSound_of_misleads {p : Proof} (h : WellBuilt p) {limit : Int}
    (hmisleads : p.misleads limit = true) : ¬(p.search limit).1.IsSound := by
  have hkeeps := wellBuilt_search h limit
  unfold misleads at hmisleads
  generalize p.search limit = outcome at hkeeps hmisleads
  obtain ⟨q, _ | result⟩ := outcome
  · cases hmisleads
  · rw [Bool.and_eq_true, Option.any_eq_true] at hmisleads
    obtain ⟨hsuccess, goal, hgoal, hsome⟩ := hmisleads
    obtain ⟨goal', hgoal', s, hs, -, hiff⟩ :=
      hkeeps.proof.exists_goal_step (hkeeps.complete result rfl hsuccess)
    obtain rfl : goal = goal' := Option.some.inj (hgoal.symm.trans hgoal')
    intro hsound
    rw [hiff.mpr (hsound s hs)] at hsome
    cases hsome

/-- From "A → B → C" implication derives "¬A ∨ B → C", which is read as a conditional; a search for
that sentence succeeds although it has a counterexample. -/
theorem search_misleads :
    let p := run [.premise "A → B → C".toList, .conclusion "¬A ∨ B → C".toList]
    p.misleads 50 = true ∧ ¬(p.search 50).1.IsSound := by
  intro p
  have hmisleads : p.misleads 50 = true := by
    unfold p
    cbv
  exact ⟨hmisleads, (reachable_run _).wellBuilt.not_isSound_of_misleads hmisleads⟩

end Proof

end Sentential
