import Sentential.Proof.Search

/-! Runs of a proof from the empty one: adding premises, setting the conclusion, applying rules,
searching and clearing. Whatever is asked for, the proof changes in four ways only, which `Change`
lists; a search changes it by derived steps alone. `Built` is what this makes of the steps: each is
a premise, or was derived from steps before it, has the next number and, if derived, a new text. -/

namespace Sentential

/-- What can be asked for. Premises and conclusions are given as texts. -/
inductive Move where
  | premise (text : List Char)
  | conclusion (text : List Char)
  | rule (choices : Choices) (name : String) (selected : References)
  | search (limit : Int)
  | clear

namespace Proof

/-- The proof after a move. What cannot be read, is declined or fails leaves the proof as it is; a
search that fails leaves the steps that it has derived. -/
def after (p : Proof) : Move → Proof
  | .premise text =>
    match Sentence.read text with
    | .error _ => p
    | .ok s =>
      match p.addPremise (.sentence s) with
      | .error _ => p
      | .ok q => q
  | .conclusion text =>
    match Sentence.read text with
    | .error _ => p
    | .ok s =>
      match p.setConclusion (.sentence s) with
      | .error _ => p
      | .ok q => q
  | .rule choices name selected =>
    match p.applyCalled choices name selected with
    | .derived _ q => q
    | .refused _ => p
    | .failed _ => p
  | .search limit => (p.search limit).1
  | .clear => .empty

/-- The proof after a list of moves, from the empty one. -/
def run (moves : List Move) : Proof :=
  moves.foldl after .empty

/-- The ways in which a proof changes. -/
inductive Change (p : Proof) : Proof → Prop
  | premise {text : List Char} {s : Sentence} {q : Proof} :
      Sentence.read text = .ok s → p.addPremise (.sentence s) = .ok q → Change p q
  | conclusion {text : List Char} {s : Sentence} {q : Proof} :
      Sentence.read text = .ok s → p.setConclusion (.sentence s) = .ok q → Change p q
  | derived {choices : Choices} {rule r : Rule} {indices : List Int} {q : Proof} :
      p.apply choices rule indices = .derived r q → Change p q
  | clear : Change p .empty

/-- The proofs that change by change come from the empty one. -/
inductive Reachable : Proof → Prop
  | empty : Reachable .empty
  | change {p q : Proof} : Reachable p → Change p q → Reachable q

/-- Every attempt preserves the property of walks. -/
def Walk.Stable (I : Walk → Prop) : Prop :=
  ∀ ⦃w : Walk⦄, I w → ∀ choices rule indices, I (w.attempt choices rule indices).1

namespace Walk.Stable

variable {I : Walk → Prop} {w : Walk}

theorem attemptOrders (hI : Stable I) (h : I w) (rule : Rule) (orders : List (List Int)) :
    I (Walk.attemptOrders rule orders w) := by
  induction orders generalizing w with
  | nil => exact h
  | cons indices rest ih =>
    have hnext := hI h {} rule indices
    rw [Walk.attemptOrders]
    split
    · next w' heq => rwa [heq] at hnext
    · next w' heq =>
      rw [heq] at hnext
      exact ih hnext

theorem foldl {α : Type} {f : Walk → α → Walk} (hf : ∀ w a, I w → I (f w a)) (h : I w)
    (l : List α) : I (l.foldl f w) :=
  List.foldlRecOn l f h fun w hw a _ => hf w a hw

theorem overSteps (hI : Stable I) (h : I w) (rule : Rule) (choices : List Choices) :
    I (Walk.overSteps rule choices w) := by
  refine foldl (I := I) (fun w s hw => ?_) h _
  exact foldl (I := I) (fun w c hw => hI hw c rule [s.index]) hw choices

theorem overPairs (hI : Stable I) (h : I w) (rule : Rule) : I (Walk.overPairs rule w) := by
  refine foldl (I := I) (fun w first hw => ?_) h _
  exact foldl (I := I) (fun w second hw => hI.attemptOrders hw rule _) hw _

theorem overTriples (hI : Stable I) (h : I w) (rule : Rule) : I (Walk.overTriples rule w) := by
  refine foldl (I := I) (fun w first hw => ?_) h _
  refine foldl (I := I) (fun w second hw => ?_) hw _
  exact foldl (I := I) (fun w third hw => hI.attemptOrders hw rule _) hw _

theorem tryRule (hI : Stable I) (h : I w) (rule : Rule) : I (w.tryRule rule) := by
  cases rule with
  | addition => exact h
  | modusPonens | modusTollens | hypotheticalSyllogism | disjunctiveSyllogism
  | conjunctionIntroduction | biconditionalIntroduction | resolution => exact hI.overPairs h _
  | constructiveDilemma => exact hI.overTriples h _
  | conjunctionElimination | simplification | biconditionalElimination | doubleNegation
  | deMorganConjunction | deMorganDisjunction | transposition | implication | exportation
  | absorption => exact hI.overSteps h _ _

/-- What every attempt preserves holds at the end of a round. -/
theorem round (hI : Stable I) {p : Proof} (h : I { proof := p }) : I p.round :=
  foldl (I := I) (fun _ rule hw => hI.tryRule hw rule) h _

end Walk.Stable

/-- The ways in which repeated rounds end. `Q` relates the number of steps added before a round to
the proof that the round starts from. -/
inductive Ending (round : Proof → Walk) (limit : Int) (Q : Nat → Proof → Prop) :
    Proof × Except Failure SearchResult → Prop
  | settled {added : Nat} {p : Proof} : Q added p → limit ≤ added ∨ p.isComplete = true →
      Ending round limit Q (p, .ok p.settled)
  | idle {added : Nat} {p : Proof} : Q added p → added < limit → p.isComplete = false →
      (round p).halt = none → (round p).added = 0 →
      Ending round limit Q ((round p).proof, .ok (round p).proof.settled)
  | reached {added : Nat} {p : Proof} {rule : Rule} : Q added p → added < limit →
      p.isComplete = false → (round p).halt = some (.reached rule) →
      Ending round limit Q ((round p).proof, .ok (.reached rule))
  | failed {added : Nat} {p : Proof} {cause : Failure} : Q added p → added < limit →
      p.isComplete = false → (round p).halt = some (.failed cause) →
      Ending round limit Q ((round p).proof, .error cause)

theorem ending_repeatRounds {round : Proof → Walk} {Q : Nat → Proof → Prop}
    (hround : ∀ added p, Q added p → Q (added + (round p).added) (round p).proof)
    (limit : Int) (added : Nat) {p : Proof} (h : Q added p) :
    Ending round limit Q (repeatRounds round limit added p) := by
  fun_induction repeatRounds round limit added p with
  | case1 added p hgo proof more rule hw =>
    simpa only [hw] using Ending.reached h hgo.1 hgo.2 (congrArg Walk.halt hw)
  | case2 added p hgo proof more cause hw =>
    simpa only [hw] using Ending.failed h hgo.1 hgo.2 (congrArg Walk.halt hw)
  | case3 added p hgo proof hw =>
    simpa only [hw] using
      Ending.idle h hgo.1 hgo.2 (congrArg Walk.halt hw) (congrArg Walk.added hw)
  | case4 added p hgo proof more hw ih =>
    have hnext := hround added p h
    rw [hw] at hnext
    exact ih hnext
  | case5 added p hstop =>
    refine .settled h ?_
    rwa [Decidable.not_and_iff_or_not, Int.not_lt, Bool.not_eq_false] at hstop

section

variable {P : Proof → Prop}

/-- Derived steps preserve the property. -/
def Preserved (P : Proof → Prop) : Prop :=
  ∀ ⦃p : Proof⦄ ⦃choices : Choices⦄ ⦃rule r : Rule⦄ ⦃indices : List Int⦄ ⦃q : Proof⦄,
    P p → p.apply choices rule indices = .derived r q → P q

/-- The walk keeps the property, and stops at the conclusion only when it is there. -/
structure Walk.Keeps (P : Proof → Prop) (w : Walk) : Prop where
  proof : P w.proof
  reached : ∀ rule, w.halt = some (.reached rule) → w.proof.isComplete = true

theorem Walk.stable_keeps (hP : Preserved P) : Walk.Stable (Walk.Keeps P) := by
  intro w h choices rule indices
  unfold Walk.attempt
  split
  · exact h
  · next hhalt =>
    split
    · next p happly =>
      refine ⟨hP h.proof happly, fun r hr => ?_⟩
      have hfound : p.isComplete = true ∧ rule = r := by simpa using hr
      exact hfound.1
    · exact h
    · exact ⟨h.proof, fun r hr => by simp at hr⟩

theorem round_keeps (hP : Preserved P) {p : Proof} (h : P p) : p.round.Keeps P :=
  (Walk.stable_keeps hP).round ⟨h, fun _ hr => by cases hr⟩

theorem success_settled (p : Proof) : p.settled.success = p.isComplete := by
  unfold settled
  cases p.isComplete <;> rfl

/-- The result of a search keeps the property, and is a success only if the conclusion is there. -/
structure SearchKeeps (P : Proof → Prop) (result : Proof × Except Failure SearchResult) : Prop where
  proof : P result.1
  complete : ∀ r, result.2 = .ok r → r.success = true → result.1.isComplete = true

theorem searchKeeps_settled {p : Proof} (h : P p) : SearchKeeps P (p, .ok p.settled) := by
  refine ⟨h, fun r hr hsuccess => ?_⟩
  obtain rfl : p.settled = r := Except.ok.inj hr
  rwa [success_settled] at hsuccess

theorem repeatRounds_keeps {round : Proof → Walk} (hround : ∀ p, P p → (round p).Keeps P)
    (limit : Int) (added : Nat) {p : Proof} (h : P p) :
    SearchKeeps P (repeatRounds round limit added p) := by
  have hends := ending_repeatRounds (Q := fun _ p => P p) (fun _ p hp => (hround p hp).proof)
    limit added h
  generalize repeatRounds round limit added p = result at hends ⊢
  cases hends with
  | settled hq => exact searchKeeps_settled hq
  | idle hq => exact searchKeeps_settled (hround _ hq).proof
  | reached hq _ _ hhalt =>
    exact ⟨(hround _ hq).proof, fun _ _ _ => (hround _ hq).reached _ hhalt⟩
  | failed hq => exact ⟨(hround _ hq).proof, fun _ hr => nomatch hr⟩

theorem search_keeps (hP : Preserved P) (limit : Int) {p : Proof} (h : P p) :
    SearchKeeps P (p.search limit) := by
  unfold search
  split
  · exact ⟨h, fun r hr hsuccess => by cases hr; cases hsuccess⟩
  · split
    · exact ⟨h, fun r hr hsuccess => by cases hr; cases hsuccess⟩
    · split
      · next hcomplete => exact ⟨h, fun _ _ _ => hcomplete⟩
      · exact repeatRounds_keeps (fun _ hp => round_keeps hP hp) limit 0 h

end

theorem applyCalled_inv {p q : Proof} {choices : Choices} {name : String} {selected : References}
    {r : Rule} (h : p.applyCalled choices name selected = .derived r q) :
    ∃ rule indices, Rule.called? name = some rule ∧ selected = .steps indices ∧
      p.apply choices rule indices = .derived r q := by
  unfold applyCalled at h
  split at h
  · cases h
  · next rule hrule =>
    split at h
    · cases h
    · next indices => exact ⟨rule, indices, hrule, rfl, h⟩

/-- What a move does to a proof. -/
inductive Effect (p : Proof) : Move → Proof → Prop
  | premise {text : List Char} {s : Sentence} {q : Proof} : Sentence.read text = .ok s →
      p.addPremise (.sentence s) = .ok q → Effect p (.premise text) q
  | noPremise {text : List Char} : Effect p (.premise text) p
  | conclusion {text : List Char} {s : Sentence} {q : Proof} : Sentence.read text = .ok s →
      p.setConclusion (.sentence s) = .ok q → Effect p (.conclusion text) q
  | noConclusion {text : List Char} {e : ParseError} : Sentence.read text = .error e →
      Effect p (.conclusion text) p
  | derived {choices : Choices} {name : String} {rule r : Rule} {indices : List Int} {q : Proof} :
      Rule.called? name = some rule → p.apply choices rule indices = .derived r q →
      Effect p (.rule choices name (.steps indices)) q
  | declined {choices : Choices} {name : String} {selected : References} :
      Effect p (.rule choices name selected) p
  | search (limit : Int) : Effect p (.search limit) (p.search limit).1
  | clear : Effect p .clear .empty

theorem effect_after (p : Proof) (m : Move) : Effect p m (p.after m) := by
  cases m with
  | premise text =>
    rw [after]
    split
    · exact .noPremise
    · next s hread =>
      split
      · exact .noPremise
      · next q hadd => exact .premise hread hadd
  | conclusion text =>
    rw [after]
    split
    · next hread => exact .noConclusion hread
    · next s hread => exact .conclusion hread rfl
  | rule choices name selected =>
    rw [after]
    split
    · next r q hcalled =>
      obtain ⟨rule, indices, hrule, rfl, happly⟩ := applyCalled_inv hcalled
      exact .derived hrule happly
    · exact .declined
    · exact .declined
  | search limit => exact .search limit
  | clear => exact .clear

theorem reachable_after {p : Proof} (h : Reachable p) (m : Move) : Reachable (p.after m) := by
  have heffect := effect_after p m
  generalize p.after m = q at heffect ⊢
  cases heffect with
  | premise hread hadd => exact h.change (.premise hread hadd)
  | conclusion hread hset => exact h.change (.conclusion hread hset)
  | derived _ happly => exact h.change (.derived happly)
  | search limit =>
    exact (search_keeps (fun _ _ _ _ _ _ hp happly => hp.change (.derived happly)) limit h).proof
  | clear => exact .empty
  | noPremise | noConclusion | declined => exact h

/-- A run takes the empty proof from change to change. -/
theorem reachable_run (moves : List Move) : Reachable (run moves) :=
  List.foldlRecOn moves after .empty fun _ hp m _ => reachable_after hp m

/-- Premises and steps that belong together. Each step is the next premise, with a text that no
premise has, or was derived from steps before it and has a text that none of them has; steps are
numbered from 1 on. -/
inductive Built : List Sentence → List Step → Prop
  | nil : Built [] []
  | premise {premises : List Sentence} {steps : List Step} {text : List Char} {s : Sentence} :
      Built premises steps → Sentence.read text = .ok s →
      (premises.any fun q => q.text = s.text) = false →
      Built (premises ++ [s]) (steps ++ [⟨steps.length + 1, .sentence s, .premise, .steps []⟩])
  | derived {premises : List Sentence} {steps : List Step} {choices : Choices} {rule : Rule}
      {indices : List Int} {contents : List Content} {s : Sentence} :
      Built premises steps → ({ steps } : Proof).contents indices = .ok contents →
      rule.apply choices contents = .ok (some s) → ({ steps } : Proof).hasText s.text = false →
      Built premises (steps ++ [⟨steps.length + 1, .sentence s, .rule rule, .steps indices⟩])

/-- The state of a proof between moves. -/
structure WellBuilt (p : Proof) : Prop where
  built : Built p.premises p.steps
  next : p.next = p.steps.length + 1
  goal : ∀ goal, p.conclusion = some goal → ∃ text, Sentence.read text = .ok goal
  complete : p.isComplete = true → ∃ goal, p.conclusion = some goal ∧ p.hasText goal.text = true

/-- The contents of steps depend on the steps only. -/
theorem contents_steps (p : Proof) (indices : List Int) :
    p.contents indices = ({ steps := p.steps } : Proof).contents indices := by
  induction indices with
  | nil => rfl
  | cons i rest ih => rw [contents, contents, ih, step?, step?]

/-- Contents that are found are those of steps with the numbers asked for. -/
theorem found_of_contents {p : Proof} {indices : List Int} {contents : List Content}
    (h : p.contents indices = .ok contents) :
    ∃ found : List Step, found.map Step.index = indices ∧ found.map Step.content = contents ∧
      ∀ s ∈ found, s ∈ p.steps := by
  induction indices generalizing contents with
  | nil =>
    cases h
    exact ⟨[], rfl, rfl, fun _ hs => nomatch hs⟩
  | cons i rest ih =>
    rw [Proof.contents] at h
    split at h
    · cases h
    · next s hs =>
      split at h
      · cases h
      · next others hothers =>
        cases h
        obtain ⟨found, rfl, rfl, hfound⟩ := ih hothers
        have hindex : s.index = i := by simpa using List.find?_some hs
        refine ⟨s :: found, by rw [List.map_cons, hindex], rfl, List.forall_mem_cons.mpr ?_⟩
        exact ⟨List.mem_of_find?_eq_some hs, hfound⟩

theorem exists_step_of_mem_contents {p : Proof} {indices : List Int} {contents : List Content}
    (h : p.contents indices = .ok contents) {c : Content} (hc : c ∈ contents) :
    ∃ s ∈ p.steps, s.content = c := by
  obtain ⟨found, -, rfl, hfound⟩ := found_of_contents h
  obtain ⟨s, hs, rfl⟩ := List.mem_map.mp hc
  exact ⟨s, hfound s hs, rfl⟩

/-- Steps that are found are found again when more steps follow. -/
theorem contents_append {steps : List Step} {indices : List Int} {contents : List Content}
    (h : ({ steps } : Proof).contents indices = .ok contents) (more : List Step) :
    ({ steps := steps ++ more } : Proof).contents indices = .ok contents := by
  induction indices generalizing contents with
  | nil => exact h
  | cons i rest ih =>
    rw [Proof.contents] at h ⊢
    split at h
    · cases h
    · next s hs =>
      split at h
      · cases h
      · next found hfound =>
        have hstep : ({ steps := steps ++ more } : Proof).step? i = some s := by
          rw [step?, List.find?_append, show steps.find? _ = some s from hs]
          rfl
        rw [hstep, ih hfound]
        exact h

/-- A premise that is added is a sentence whose text no premise has. -/
theorem addPremise_inv {p q : Proof} {content : Content} (h : p.addPremise content = .ok q) :
    ∃ s, content = .sentence s ∧ (∀ r ∈ p.premises, r.text ≠ s.text) ∧
      q = { p.addStep (.sentence s) .premise [] with premises := p.premises ++ [s] } := by
  cases content with
  | other value => cases h
  | sentence s =>
    rw [addPremise] at h
    split at h
    · cases h
    · next hnew =>
      cases h
      exact ⟨s, rfl, by simpa using hnew, rfl⟩

theorem apply_inv {p q : Proof} {choices : Choices} {rule r : Rule} {indices : List Int}
    (h : p.apply choices rule indices = .derived r q) :
    ∃ contents s, p.contents indices = .ok contents ∧ rule.apply choices contents = .ok (some s) ∧
      p.hasText s.text = false ∧ q = (p.addStep (.sentence s) (.rule rule) indices).refreshed := by
  unfold apply at h
  split at h
  · cases h
  · next contents hcontents =>
    split at h
    · cases h
    · cases h
    · split at h
      · cases h
      · cases h
      · next s hs =>
        split at h
        · cases h
        · next hnew =>
          cases h
          exact ⟨contents, s, hcontents, hs, by simpa using hnew, rfl⟩

theorem apply_failed_inv {p : Proof} {choices : Choices} {rule : Rule} {indices : List Int}
    {cause : Failure} (h : p.apply choices rule indices = .failed cause) :
    ∃ contents, p.contents indices = .ok contents ∧ rule.accepts contents = .error cause := by
  unfold apply at h
  split at h
  · cases h
  · next contents hcontents =>
    split at h
    · next hfailed =>
      cases h
      exact ⟨contents, hcontents, hfailed⟩
    · cases h
    · split at h
      · cases h
      · cases h
      · split at h <;> cases h

@[simp] theorem premises_refreshed (p : Proof) : p.refreshed.premises = p.premises := by
  unfold refreshed
  split <;> rfl

@[simp] theorem steps_refreshed (p : Proof) : p.refreshed.steps = p.steps := by
  unfold refreshed
  split <;> rfl

@[simp] theorem conclusion_refreshed (p : Proof) : p.refreshed.conclusion = p.conclusion := by
  unfold refreshed
  split <;> rfl

@[simp] theorem next_refreshed (p : Proof) : p.refreshed.next = p.next := by
  unfold refreshed
  split <;> rfl

theorem hasText_iff {p : Proof} {text : List Char} :
    p.hasText text = true ↔ ∃ s ∈ p.steps, s.content.text = text := by
  simp [hasText]

theorem hasText_addStep {p : Proof} {text : List Char} (h : p.hasText text = true) (c : Content)
    (j : Justification) (indices : List Int) : (p.addStep c j indices).hasText text = true := by
  rw [hasText, addStep, List.any_append, ← hasText, h]
  rfl

theorem wellBuilt_empty : WellBuilt .empty where
  built := .nil
  next := rfl
  goal _ h := nomatch h
  complete h := nomatch h

/-- Looking for the conclusion keeps a proof well built. -/
theorem WellBuilt.refreshed {p : Proof} (built : Built p.premises p.steps)
    (next : p.next = p.steps.length + 1)
    (goal : ∀ goal, p.conclusion = some goal → ∃ text, Sentence.read text = .ok goal)
    (unset : p.conclusion = none → p.isComplete = false) : WellBuilt p.refreshed := by
  unfold Proof.refreshed
  split
  · next hnone => exact ⟨built, next, goal, fun h => by rw [unset hnone] at h; cases h⟩
  · next s hs => exact ⟨built, next, goal, fun h => ⟨s, hs, h⟩⟩

theorem WellBuilt.of_change {p q : Proof} (h : WellBuilt p) (hchange : Change p q) :
    WellBuilt q := by
  cases hchange with
  | premise hread hadd =>
    obtain ⟨s, hsame, hnew, rfl⟩ := addPremise_inv hadd
    cases hsame
    refine ⟨?_, ?_, h.goal, fun hcomplete => ?_⟩
    · rw [addStep, h.next]
      exact h.built.premise hread (by simpa using hnew)
    · simp [addStep, h.next]
    · obtain ⟨goal, hgoal, htext⟩ := h.complete hcomplete
      exact ⟨goal, hgoal, hasText_addStep htext _ _ _⟩
  | @conclusion text _ _ hread hset =>
    cases hset
    refine .refreshed h.built h.next (fun goal hgoal => ?_) (fun hnone => by cases hnone)
    cases hgoal
    exact ⟨text, hread⟩
  | derived happly =>
    obtain ⟨contents, s, hcontents, hs, hnew, rfl⟩ := apply_inv happly
    refine .refreshed ?_ ?_ h.goal fun hnone => ?_
    · rw [addStep, h.next]
      exact h.built.derived (p.contents_steps _ ▸ hcontents) hs hnew
    · simp [addStep, h.next]
    · rw [← Bool.not_eq_true]
      intro hcomplete
      obtain ⟨goal, hgoal, -⟩ := h.complete hcomplete
      exact absurd (hgoal.symm.trans hnone) (by simp)
  | clear => exact wellBuilt_empty

theorem Reachable.wellBuilt {p : Proof} (h : Reachable p) : WellBuilt p := by
  induction h with
  | empty => exact wellBuilt_empty
  | change _ hchange ih => exact ih.of_change hchange

end Proof

end Sentential
