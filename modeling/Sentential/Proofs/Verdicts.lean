import Mathlib
import Sentential.Proofs.Agreement
import Sentential.Proofs.Exploration

/-! What a verdict on the conclusion says. In automatic mode the conclusion is called false exactly if
the search for a proof has given up. Then no derived step is the conclusion, and no rule that the
search tries leads to it from the steps that there were in one go. This is all: the premises may
entail the conclusion all the same, as "A" does "A ∨ B", which only addition derives. -/

namespace Sentential

namespace Proof

theorem Reachable.exists_looked {p : Proof} (h : Reachable p) : ∃ k, Looked p k := by
  induction h with
  | empty => exact ⟨0, looked_empty⟩
  | change _ hchange ih =>
    obtain ⟨k, hk⟩ := ih
    cases hchange with
    | premise _ hadd => exact ⟨k, hk.addPremise hadd⟩
    | conclusion _ hset => exact ⟨_, Looked.setConclusion hset⟩
    | derived happly => exact ⟨_, (hk.derived happly).2⟩
    | clear => exact ⟨0, looked_empty⟩

/-- In a proof that does not count as complete, only a premise can be the conclusion. -/
theorem Reachable.isPremise {p : Proof} (h : Reachable p) (hincomplete : p.isComplete = false)
    {goal : Sentence} (hgoal : p.conclusion = some goal) {s : Step} (hs : s ∈ p.steps)
    (htext : s.content.text = goal.text) : s.isPremise = true := by
  obtain ⟨k, hk⟩ := h.exists_looked
  rw [← List.take_append_drop k p.steps, List.mem_append] at hs
  rcases hs with hs | hs
  · rw [hk.flag.mpr ⟨goal, hgoal, s, hs, htext⟩] at hincomplete
    cases hincomplete
  · exact hk.premises s hs

theorem eq_exhausted_of_repeatRounds {round : Proof → Walk} {limit : Int} {added : Nat} {p : Proof}
    {result : SearchResult} (hresult : (repeatRounds round limit added p).2 = .ok result)
    (hfails : result.success = false) : result = .exhausted := by
  have hends : Ending round limit (fun _ _ => True) (repeatRounds round limit added p) :=
    ending_repeatRounds (fun _ _ _ => trivial) limit added trivial
  generalize repeatRounds round limit added p = outcome at hends hresult
  cases hends with
  | settled =>
    cases hresult
    rwa [settled_eq_exhausted_iff, ← success_settled]
  | idle =>
    cases hresult
    rwa [settled_eq_exhausted_iff, ← success_settled]
  | reached =>
    cases hresult
    cases hfails
  | failed => cases hresult

/-- With premises and a conclusion, a search that fails has given up. -/
theorem eq_exhausted_of_search {p : Proof} (hpremises : p.premises ≠ [])
    (hgoal : p.conclusion ≠ none) {limit : Int} {result : SearchResult}
    (hresult : (p.search limit).2 = .ok result) (hfails : result.success = false) :
    result = .exhausted := by
  unfold search at hresult
  rw [if_neg (by simpa using hgoal), if_neg (by simpa using hpremises)] at hresult
  split at hresult
  · cases hresult
    cases hfails
  · exact eq_exhausted_of_repeatRounds hresult hfails

end Proof

namespace Desk

theorem ProofPane.exists_addSteps {steps : List Step}
    (h : ∀ s ∈ steps, ∃ numbers, s.references = .steps numbers) (pane : ProofPane) :
    ∃ shown, pane.addSteps steps = (shown, .ok ()) := by
  induction steps generalizing pane with
  | nil => exact ⟨pane, rfl⟩
  | cons s rest ih =>
    rw [List.forall_mem_cons] at h
    obtain ⟨numbers, hnumbers⟩ := h.1
    rw [addSteps, addStep, hnumbers]
    exact ih h.2 _

/-- A proof that comes from what was entered can be shown. -/
theorem exists_showProof {d : Desk} (h : d.session.proof.Orderly) :
    ∃ shown, d.showProof = (shown, .ok ()) := by
  have hreferences : ∀ s ∈ d.session.proof.steps, ∃ numbers, s.references = .steps numbers := by
    intro s hs
    cases hcalled : s.isCalledPremise with
    | true => exact ⟨[], h.unsupported s hs hcalled⟩
    | false =>
      obtain ⟨numbers, hnumbers, -⟩ := h.supported s hs hcalled
      exact ⟨numbers, hnumbers⟩
  obtain ⟨pane, hpane⟩ := ProofPane.exists_addSteps hreferences d.proofPane.clear
  rw [showProof, hpane]
  exact ⟨_, rfl⟩

section

variable {d : Desk} (hpremises : d.session.proof.premises ≠ [])
  (hgoal : d.session.proof.conclusion ≠ none)

include hpremises hgoal

theorem prove_fails_iff (h : Proof.Reachable d.session.proof) :
    d.prove.2.1 = false ↔
      (d.session.proof.search Proof.defaultLimit).2 = .ok .exhausted := by
  obtain ⟨result, hresult, -⟩ := Proof.answers_search h.wellBuilt Proof.defaultLimit
  have hexhausted := Proof.eq_exhausted_of_search hpremises hgoal hresult
  have hreachable := Proof.reachable_after h (.search Proof.defaultLimit)
  rw [Proof.after] at hreachable
  unfold prove
  generalize d.session.proof.search Proof.defaultLimit = outcome at hresult hreachable ⊢
  obtain ⟨q, answer⟩ := outcome
  obtain rfl : answer = .ok result := hresult
  dsimp only
  cases hsuccess : result.success with
  | true =>
    obtain ⟨shown, hshown⟩ := exists_showProof (d := d.withProof q) hreachable.orderly
    rw [if_pos rfl, hshown]
    refine ⟨fun hfails => Bool.noConfusion hfails, fun hgives => ?_⟩
    rw [Except.ok.inj hgives] at hsuccess
    cases hsuccess
  | false =>
    rw [hexhausted hsuccess]
    exact ⟨fun _ => rfl, fun _ => rfl⟩

theorem execute_eq (hmode : d.mode = .automatic) :
    d.execute.session.proof = (d.session.proof.search Proof.defaultLimit).1 ∧
      (d.execute.proofPane.result.text = "Conclusion is FALSE" ↔ d.prove.2.1 = false) := by
  have hproof := congrArg Ledger.proof (ledger_prove d)
  unfold execute
  rw [if_neg (by simpa using hpremises), if_neg (by simpa using hgoal), if_pos hmode]
  generalize d.prove = outcome at hproof ⊢
  obtain ⟨d', _ | _, message⟩ := outcome
  · exact ⟨hproof, fun _ => rfl, fun _ => rfl⟩
  · have hvalid : "Conclusion is VALID" ≠ "Conclusion is FALSE" := by decide
    exact ⟨hproof, fun hfalse => absurd hfalse hvalid, fun hfails => Bool.noConfusion hfails⟩

end

/-- Pressing the button in automatic mode, with premises and a conclusion, calls the conclusion false
exactly if the search gives up; the proof is then the one that the search has come to. -/
theorem verdict_iff {d : Desk} (h : Proof.Reachable d.session.proof) (hmode : d.mode = .automatic)
    (hpremises : d.session.proof.premises ≠ []) (hgoal : d.session.proof.conclusion ≠ none)
    (answers : List Answer) :
    (d.respond (.press .execute) answers).session.proof =
        (d.session.proof.search Proof.defaultLimit).1 ∧
      ((d.respond (.press .execute) answers).proofPane.result.text = "Conclusion is FALSE" ↔
        (d.session.proof.search Proof.defaultLimit).2 = .ok .exhausted) := by
  obtain ⟨hproof, hverdict⟩ := execute_eq (d := d.expecting answers) hpremises hgoal hmode
  exact ⟨hproof, hverdict.trans (prove_fails_iff (d := d.expecting answers) hpremises hgoal h)⟩

/-! What the user types and enters, as moves in the proof. -/

/-- There is nothing to be said against the text, which is entered as the sentence. -/
structure Passes (text : String) (s : Sentence) : Prop where
  given : text ≠ ""
  typed : text ≠ placeholder
  trimmed : Text.trim text.toList = text.toList
  plain : Inspection.strayCharacters text.toList = []
  wellFormed : Inspection.wellFormed text.toList = .ok ()
  writes : Writes text s
  contingent : s.classify = .contingent

/-- The move that entering a text in a place comes to. -/
def Slot.move (text : String) : Slot → Move
  | premise => .premise text.toList
  | conclusion => .conclusion text.toList

section

variable {text : String} {s : Sentence}

theorem enter_keeps (hwrites : Writes text s) (slot : Slot) (d : Desk) :
    (d.enter slot text s).session.proof = d.session.proof.after (slot.move text) ∧
      (d.enter slot text s).mode = d.mode := by
  have hread : Sentence.read text.toList = .ok s := hwrites
  unfold enter
  cases slot with
  | premise =>
    rw [Slot.move, Proof.after, hread, Slot.submit]
    dsimp only
    cases d.session.proof.addPremise (.sentence s) <;> exact ⟨rfl, rfl⟩
  | conclusion =>
    rw [Slot.move, Proof.after, hread, Slot.submit]
    exact ⟨rfl, rfl⟩

theorem submit_of_passes (h : Passes text s) (slot : Slot) (d : Desk) :
    d.submit slot text.toList = (d.say "Formula is CONTINGENT").enter slot text s := by
  rw [submit_of_checked h.plain h.wellFormed h.writes, if_pos h.contingent, String.ofList_toList]

/-- Typing a text and entering it makes the move for its place. -/
theorem respond_type_add {d : Desk} (h : d.InOrder) (hpasses : Passes text s) (slot : Slot)
    (first second : List Answer) :
    let d' := (d.respond (.type slot text) first).respond (.add slot) second
    d'.session.proof = d.session.proof.after (slot.move text) ∧ d'.mode = d.mode := by
  intro d'
  let e := (d.respond (.type slot text) first).expecting second
  have hkept : e.session = d.session ∧ e.mode = d.mode := by
    cases slot <;> exact ⟨rfl, rfl⟩
  have hkey : (e.listing slot).isConnected = true := by
    cases slot with
    | premise => exact h.premiseKey
    | conclusion => exact h.conclusionKey
  have htyped : (e.listing slot).field.text = text := by
    cases slot <;> rfl
  have hsubmit : d' = (e.say "Formula is CONTINGENT").enter slot text s := by
    show e.addByKey slot = _
    rw [addByKey, if_pos hkey, add, Field.input, htyped, if_neg hpasses.typed, hpasses.trimmed]
    exact submit_of_passes hpasses slot e
  rw [hsubmit, ← hkept.1, ← hkept.2]
  exact enter_keeps hpasses.writes slot _

end

/-- The user enters the premise "A" and the conclusion "A ∨ B". -/
def disjunctionEntered : List (Gesture × List Answer) :=
  [(.type .premise "A", []), (.add .premise, []), (.type .conclusion "A ∨ B", []),
    (.add .conclusion, [])]

set_option maxRecDepth 4000 in
theorem run_disjunctionEntered :
    (run disjunctionEntered).session.proof =
        Proof.run [.premise "A".toList, .conclusion "A ∨ B".toList] ∧
      (run disjunctionEntered).mode = .automatic := by
  have hpremise : Passes "A" ⟨['A'], some (.letter 'A'), ['A']⟩ :=
    ⟨by decide, by decide, by cbv, by cbv, by cbv, by unfold Writes; cbv, by cbv⟩
  have hconclusion : Passes "A ∨ B"
      ⟨"A ∨ B".toList, some (.binary .or (.letter 'A') (.letter 'B')), ['A', 'B']⟩ :=
    ⟨by decide, by decide, by cbv, by cbv, by cbv, by unfold Writes; cbv, by cbv⟩
  obtain ⟨hfirst, hmode⟩ := respond_type_add inOrder_start hpremise .premise [] []
  obtain ⟨hsecond, hmode'⟩ := respond_type_add
    (inOrder_run [(.type .premise "A", []), (.add .premise, [])]) hconclusion .conclusion [] []
  refine ⟨hsecond.trans ?_, hmode'.trans hmode⟩
  exact congrArg (fun p => p.after (.conclusion "A ∨ B".toList)) hfirst

set_option maxRecDepth 4000 in
/-- The premise entails the conclusion, but the search finds no proof. -/
theorem exhausted_disjunction :
    let p := (run disjunctionEntered).session.proof
    p.premises ≠ [] ∧ ∃ goal, p.conclusion = some goal ∧
      Argument.counterexample p.premises goal = none ∧
      (p.search Proof.defaultLimit).2 = .ok .exhausted := by
  intro p
  have hp : p = Proof.run [.premise "A".toList, .conclusion "A ∨ B".toList] :=
    run_disjunctionEntered.1
  obtain ⟨hpremises, hentailed, hsearch⟩ : p.premises.isEmpty = false ∧
      (p.conclusion.any fun goal => (Argument.counterexample p.premises goal).isNone) = true ∧
      (p.search Proof.defaultLimit).2 = .ok .exhausted := by
    rw [hp]
    cbv
  obtain ⟨goal, hgoal, hnone⟩ := (Option.any_eq_true _ _).mp hentailed
  refine ⟨?_, goal, hgoal, Option.isNone_iff_eq_none.mp hnone, hsearch⟩
  rwa [ne_eq, ← List.isEmpty_iff, Bool.not_eq_true]

/-! What it means that the conclusion is called false. -/

/-- Whatever the user has done, the conclusion is called false exactly if the search for a proof gives
up. Then only a premise can be a step with the text of the conclusion, all that the rules tried
derive in one go from the steps that there were is among the steps, and if fewer steps than the limit
were added, the same is true of the steps that there are now. -/
theorem false_verdict_tells_search_gave_up (requests : List (Gesture × List Answer))
    (answers : List Answer) (goal : Sentence) (hmode : (run requests).mode = .automatic)
    (hpremises : (run requests).session.proof.premises ≠ [])
    (hgoal : (run requests).session.proof.conclusion = some goal) :
    let p := (run requests).session.proof
    let d := (run requests).respond (.press .execute) answers
    let q := d.session.proof
    (d.proofPane.result.text = "Conclusion is FALSE" ↔
      (p.search Proof.defaultLimit).2 = .ok .exhausted) ∧
    (d.proofPane.result.text = "Conclusion is FALSE" →
      p.Extends q ∧ p.GivesUp Proof.defaultLimit q ∧
        ∀ s ∈ q.steps, s.content.text = goal.text → s.isPremise = true) := by
  intro p d q
  have hp : Proof.Reachable p := (inOrder_run requests).reachable
  have hset : p.conclusion ≠ none := by
    rw [hgoal]
    exact Option.some_ne_none goal
  obtain ⟨hproof, hverdict⟩ := verdict_iff hp hmode hpremises hset answers
  refine ⟨hverdict, fun hfalse => ?_⟩
  have hq : q = (p.search Proof.defaultLimit).1 := hproof
  have hreachable : Proof.Reachable q := by
    rw [hq]
    exact Proof.reachable_after hp (.search Proof.defaultLimit)
  have hextends : p.Extends q := by
    rw [hq]
    exact p.search_extends Proof.defaultLimit
  have hgives : p.GivesUp Proof.defaultLimit q := by
    rw [hq]
    exact Proof.givesUp_search hp (by decide) (hverdict.mp hfalse)
  refine ⟨hextends, hgives, fun s hs htext => ?_⟩
  exact hreachable.isPremise hgives.incomplete (hextends.conclusion.trans hgoal) hs htext

theorem false_verdict_on_disjunction :
    let p := (run disjunctionEntered).session.proof
    let d := (run disjunctionEntered).respond (.press .execute) []
    (run disjunctionEntered).mode = .automatic ∧ p.premises ≠ [] ∧
      ∃ goal, p.conclusion = some goal ∧ d.proofPane.result.text = "Conclusion is FALSE" ∧
        p.GivesUp Proof.defaultLimit d.session.proof ∧
        ∀ s ∈ d.session.proof.steps, s.content.text = goal.text → s.isPremise = true := by
  intro p d
  have hmode : (run disjunctionEntered).mode = .automatic := run_disjunctionEntered.2
  obtain ⟨hpremises, goal, hgoal, -, hsearch⟩ := exhausted_disjunction
  obtain ⟨hverdict, hgives⟩ :=
    false_verdict_tells_search_gave_up disjunctionEntered [] goal hmode hpremises hgoal
  have hfalse : d.proofPane.result.text = "Conclusion is FALSE" := hverdict.mpr hsearch
  exact ⟨hmode, hpremises, goal, hgoal, hfalse, (hgives hfalse).2⟩

theorem entailed_conclusion_called_false :
    let d := run disjunctionEntered
    d.mode = .automatic ∧ d.session.proof.premises ≠ [] ∧
      ∃ goal, d.session.proof.conclusion = some goal ∧
        (d.respond (.press .execute) []).proofPane.result.text = "Conclusion is FALSE" ∧
        Argument.counterexample d.session.proof.premises goal = none := by
  intro d
  have hmode : d.mode = .automatic := run_disjunctionEntered.2
  obtain ⟨hpremises, goal, hgoal, hnone, hsearch⟩ := exhausted_disjunction
  have hset : d.session.proof.conclusion ≠ none := by
    rw [hgoal]
    exact Option.some_ne_none goal
  obtain ⟨-, hverdict⟩ :=
    verdict_iff (inOrder_run disjunctionEntered).reachable hmode hpremises hset []
  exact ⟨hmode, hpremises, goal, hgoal, hverdict.mpr hsearch, hnone⟩

end Desk

end Sentential
