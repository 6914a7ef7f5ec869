import Mathlib
import Sentential.Proofs.Soundness

/-! What a search does to a proof and what it answers. From any proof that a run leads to, and
under any limit, a search comes to an end without failing. It leaves premises and conclusion alone
and adds steps after those that are there, and it reports success exactly if the proof is complete
afterwards. -/

namespace Sentential.Proof

/-- The second proof has the premises, the conclusion and the steps of the first, and more steps
after them, which are counted. -/
structure Extends (p q : Proof) : Prop where
  premises : q.premises = p.premises
  conclusion : q.conclusion = p.conclusion
  steps : ∃ added, q.steps = p.steps ++ added ∧ q.next = p.next + added.length

theorem Extends.refl (p : Proof) : p.Extends p :=
  ⟨rfl, rfl, [], by simp, by simp⟩

theorem Extends.trans {p q r : Proof} (h : p.Extends q) (h' : q.Extends r) : p.Extends r := by
  obtain ⟨added, hsteps, hnext⟩ := h.steps
  obtain ⟨more, hsteps', hnext'⟩ := h'.steps
  refine ⟨h'.premises.trans h.premises, h'.conclusion.trans h.conclusion, added ++ more, ?_, ?_⟩
  · rw [hsteps', hsteps, List.append_assoc]
  · rw [hnext', hnext, List.length_append]
    omega

theorem extends_of_derived {p q : Proof} {choices : Choices} {rule r : Rule} {indices : List Int}
    (happly : p.apply choices rule indices = .derived r q) : p.Extends q := by
  obtain ⟨contents, s, -, -, -, rfl⟩ := apply_inv happly
  refine ⟨premises_refreshed _, conclusion_refreshed _, _, steps_refreshed _, ?_⟩
  rw [next_refreshed]
  rfl

/-- Steps of a proof are sentences that were read, so every rule can be tested on them. -/
theorem WellBuilt.apply_ne_failed {p : Proof} (h : WellBuilt p) (choices : Choices) (rule : Rule)
    (indices : List Int) (cause : Failure) : p.apply choices rule indices ≠ .failed cause := by
  intro hfailed
  obtain ⟨contents, hcontents, hcause⟩ := apply_failed_inv hfailed
  obtain ⟨sentences, rfl, hsentences⟩ := h.contents_inv hcontents
  have hread : ∀ c ∈ sentences.map Content.sentence, ∃ t, c = .sentence t ∧ t.IsRead := by
    intro c hc
    obtain ⟨t, ht, rfl⟩ := List.mem_map.mp hc
    exact ⟨t, rfl, (hsentences t ht).1⟩
  obtain ⟨quotes, hquoted, -⟩ := Rule.exists_quoted hread
  obtain ⟨accepted, haccepts⟩ := Rule.exists_accepts hquoted
  rw [haccepts] at hcause
  cases hcause

theorem search_extends (p : Proof) (limit : Int) : p.Extends (p.search limit).1 := by
  have hpreserved : Preserved p.Extends := by
    intro q choices rule r indices q' hq happly
    exact hq.trans (extends_of_derived happly)
  exact (search_keeps hpreserved limit (.refl p)).proof

/-- No rule has failed on the walk. -/
structure Walk.Unfailed (w : Walk) : Prop where
  built : WellBuilt w.proof
  halt : ∀ cause, w.halt ≠ some (.failed cause)

theorem Walk.stable_unfailed : Walk.Stable Walk.Unfailed := by
  intro w h choices rule indices
  unfold Walk.attempt
  split
  · exact h
  · split
    · next r q happly =>
      refine ⟨h.built.of_change (.derived happly), fun cause => ?_⟩
      split <;> simp
    · exact h
    · next cause hfailed => exact absurd hfailed (h.built.apply_ne_failed _ _ _ _)

theorem unfailed_round {p : Proof} (h : WellBuilt p) : p.round.Unfailed :=
  Walk.stable_unfailed.round ⟨h, fun _ hfailed => nomatch hfailed⟩

/-- The search has an answer, which is success if the proof is complete. -/
def Answers (outcome : Proof × Except Failure SearchResult) : Prop :=
  ∃ result, outcome.2 = .ok result ∧ (outcome.1.isComplete = true → result.success = true)

theorem answers_settled (p : Proof) : Answers (p, .ok p.settled) :=
  ⟨p.settled, rfl, fun hcomplete => by rw [success_settled, hcomplete]⟩

theorem answers_repeatRounds {round : Proof → Walk} (hround : ∀ p, WellBuilt p → (round p).Unfailed)
    (limit : Int) (added : Nat) {p : Proof} (h : WellBuilt p) :
    Answers (repeatRounds round limit added p) := by
  have hends := ending_repeatRounds (Q := fun _ q => WellBuilt q)
    (fun _ q hq => (hround q hq).built) limit added h
  generalize repeatRounds round limit added p = outcome at hends ⊢
  cases hends with
  | settled | idle => exact answers_settled _
  | @reached added q rule => exact ⟨.reached rule, rfl, fun _ => rfl⟩
  | failed hq _ _ hhalt => exact absurd hhalt ((hround _ hq).halt _)

theorem accepts_nil (rule : Rule) : rule.accepts [] = .ok false := by
  cases rule <;> rfl

theorem contents_empty {indices : List Int} {contents : List Content}
    (h : ({ steps := [] } : Proof).contents indices = .ok contents) : contents = [] := by
  cases indices with
  | nil => exact (Except.ok.inj h).symm
  | cons i rest => cases h

/-- No rule derives anything from nothing, so without premises there are no steps. -/
theorem Built.steps_eq_nil {premises : List Sentence} {steps : List Step}
    (h : Built premises steps) (hpremises : premises = []) : steps = [] := by
  induction h with
  | nil => rfl
  | premise => simp at hpremises
  | @derived premises steps choices rule indices contents s hbuilt hcontents happly hnew ih =>
    rw [ih hpremises] at hcontents
    rw [contents_empty hcontents] at happly
    have haccepts := (Rule.apply_inv happly).1
    rw [accepts_nil] at haccepts
    cases haccepts

/-- A complete proof has a conclusion and premises. -/
theorem WellBuilt.incomplete {p : Proof} (h : WellBuilt p)
    (hmissing : p.conclusion = none ∨ p.premises = []) : p.isComplete = false := by
  rw [← Bool.not_eq_true]
  intro hcomplete
  obtain ⟨goal, hgoal, htext⟩ := h.complete hcomplete
  rcases hmissing with hnone | hempty
  · rw [hnone] at hgoal
    cases hgoal
  · rw [hasText, h.built.steps_eq_nil hempty] at htext
    cases htext

theorem answers_search {p : Proof} (h : WellBuilt p) (limit : Int) : Answers (p.search limit) := by
  unfold search
  split
  · next hnone =>
    have hincomplete := h.incomplete (.inl (Option.isNone_iff_eq_none.mp hnone))
    exact ⟨.noConclusion, rfl, fun hcomplete => by simp [hincomplete] at hcomplete⟩
  · split
    · next hempty =>
      have hincomplete := h.incomplete (.inr (List.isEmpty_iff.mp hempty))
      exact ⟨.noPremises, rfl, fun hcomplete => by simp [hincomplete] at hcomplete⟩
    · split
      · exact ⟨.alreadyComplete, rfl, fun _ => rfl⟩
      · exact answers_repeatRounds (fun _ => unfailed_round) limit 0 h

/-- After every run and under every limit a search answers; it only adds steps after those that are
there, and it succeeds exactly if the proof is complete afterwards, which then has a step with the
text of the conclusion. -/
theorem search_extends_and_answers (moves : List Move) (limit : Int) :
    let p := run moves
    let q := (p.search limit).1
    p.Extends q ∧ ∃ result, (p.search limit).2 = .ok result ∧
      (result.success = true ↔ q.isComplete = true) ∧
      (result.success = true →
        ∃ goal, q.conclusion = some goal ∧ ∃ s ∈ q.steps, s.content.text = goal.text) := by
  intro p q
  have hp : WellBuilt p := (reachable_run moves).wellBuilt
  have hq : SearchKeeps WellBuilt (p.search limit) := wellBuilt_search hp limit
  obtain ⟨result, hresult, hcomplete⟩ := answers_search hp limit
  have hsuccess := hq.complete result hresult
  refine ⟨search_extends p limit, result, hresult, ⟨hsuccess, hcomplete⟩, fun hdone => ?_⟩
  obtain ⟨goal, hgoal, htext⟩ := hq.proof.complete (hsuccess hdone)
  exact ⟨goal, hgoal, hasText_iff.mp htext⟩

theorem search_answers_modus_ponens :
    let p := run [.premise "A → B".toList, .premise "A".toList, .conclusion "B".toList]
    (p.search 50).2 = .ok (.reached .modusPonens) ∧ ∃ goal,
      (p.search 50).1.conclusion = some goal ∧
        ∃ s ∈ (p.search 50).1.steps, s.content.text = goal.text := by
  intro p
  have hreached : (p.search 50).2 = .ok (.reached .modusPonens) := by
    unfold p
    cbv
  obtain ⟨-, result, hresult, -, hgoal⟩ := search_extends_and_answers
    [.premise "A → B".toList, .premise "A".toList, .conclusion "B".toList] 50
  obtain rfl : SearchResult.reached .modusPonens = result :=
    Except.ok.inj (hreached.symm.trans hresult)
  exact ⟨hreached, hgoal rfl⟩

end Sentential.Proof
