import Mathlib
import Sentential.Proofs.Completion
import Sentential.Proofs.SearchOutcome

/-! Applying a rule to steps of a proof. The application is refused and leaves the proof as it is,
or it adds one step; nothing else comes of it. Whatever a rule puts together from sentences that
were read can be read again, be it as something else than was meant; only addition takes in a text
that was not read before, and so it alone can put together what is no sentence. -/

namespace Sentential

namespace Refusal

theorem isPrefix_front (front : String) {start : List Char} {message back : String}
    (h : start <+: message.toList) (hmessage : message = front ++ back)
    (hle : start.length ≤ front.toList.length) : start <+: front.toList := by
  rw [hmessage, String.toList_append] at h
  exact List.prefix_of_prefix_length_le h (List.prefix_append _ _) hle

/-- The refusals can be told apart by their messages. -/
theorem misapplied_of_message {cause : Refusal}
    (h : "Error applying rule".toList <+: cause.message.toList) :
    ∃ failure, cause = .misapplied failure := by
  have hfirst : "E".toList <+: cause.message.toList := .trans (by decide) h
  cases cause with
  | misapplied failure => exact ⟨failure, rfl⟩
  | notSentence | duplicatePremise | nothingDerived | alreadyDerived =>
    exact absurd hfirst (by decide)
  | unknownRule name =>
    exact absurd (isPrefix_front "Unknown rule: " hfirst rfl (by decide)) (by decide)
  | unselectable failure =>
    -- this message, too, begins with "Error "
    have hstart : "Error a".toList <+: (unselectable failure).message.toList :=
      .trans (by decide) h
    exact absurd (isPrefix_front "Error getting formulas: " hstart rfl (by decide)) (by decide)
  | missingStep i =>
    exact absurd (isPrefix_front "Step " hfirst String.append_assoc (by decide)) (by decide)
  | inapplicable rule =>
    exact absurd (isPrefix_front "Rule " hfirst String.append_assoc (by decide)) (by decide)

end Refusal

namespace Rule

variable {rule : Rule} {choices : Choices} {contents : List Content}

/-- From sentences that were read and that it accepts, a rule puts together a text that can be read,
or nothing. Addition needs a sentence to add. -/
theorem exists_conclusion (hread : ∀ c ∈ contents, ∃ t, c = .sentence t ∧ t.IsRead)
    (haccepts : rule.accepts contents = .ok true) (hjoins : rule.Joins choices) :
    ∃ conclusion, rule.conclusion choices contents = .ok conclusion ∧
      ∀ text, conclusion = some text → ∃ s, Sentence.read text = .ok s := by
  obtain ⟨quotes, hquoted, hquotes⟩ := exists_quoted hread
  refine ⟨_, conclusion_eq_draft hquoted hjoins, fun text htext => ?_⟩
  obtain ⟨d, hdraft, rfl⟩ := Option.map_eq_some_iff.mp htext
  exact Draft.exists_read ((restsOn_of_draft hquoted haccepts hdraft).1 hquotes)

theorem apply_ne_error (hread : ∀ c ∈ contents, ∃ t, c = .sentence t ∧ t.IsRead)
    (haccepts : rule.accepts contents = .ok true) (hjoins : rule.Joins choices)
    (failure : Failure) : rule.apply choices contents ≠ .error failure := by
  intro hfailed
  obtain ⟨conclusion, hconclusion, htext⟩ := exists_conclusion hread haccepts hjoins
  cases conclusion with
  | none => simp [apply, haccepts, hconclusion, ok_bind, pure_eq_ok] at hfailed
  | some text =>
    obtain ⟨s, hs⟩ := htext text rfl
    rw [apply_of_read haccepts hconclusion hs] at hfailed
    cases hfailed

theorem of_not_joins (h : ¬rule.Joins choices) : rule = .addition ∧
    ∀ text, choices.added = .text text → ∃ e, Sentence.read text.toList = .error e := by
  obtain ⟨rfl, hnone⟩ : rule = .addition ∧ (addedQuote? choices.added).isSome ≠ true := by
    simpa [Joins] using h
  refine ⟨rfl, fun text hadded => ?_⟩
  cases hread : Sentence.read text.toList with
  | error e => exact ⟨e, rfl⟩
  | ok s =>
    obtain ⟨ts, f, -, -, rfl⟩ := Sentence.derives_of_read hread
    simp [hadded, addedQuote?, hread] at hnone

end Rule

namespace Proof

variable {p q : Proof} {choices : Choices} {rule : Rule} {indices : List Int}

theorem contents_error {cause : Refusal} (h : p.contents indices = .error cause) :
    ∃ i, cause = .missingStep i := by
  induction indices with
  | nil => cases h
  | cons i rest ih =>
    rw [contents] at h
    split at h
    · cases h
      exact ⟨i, rfl⟩
    · split at h
      · next hrest =>
        cases h
        exact ih hrest
      · cases h

theorem apply_misapplied_inv {failure : Failure}
    (h : p.apply choices rule indices = .refused (.misapplied failure)) :
    ∃ contents, p.contents indices = .ok contents ∧ rule.accepts contents = .ok true ∧
      rule.apply choices contents = .error failure := by
  unfold apply at h
  split at h
  · next hmissing =>
    obtain ⟨i, hi⟩ := contents_error hmissing
    cases h
    cases hi
  · next contents hcontents =>
    split at h
    · cases h
    · cases h
    · next haccepts =>
      split at h
      · next hfailed =>
        cases h
        exact ⟨contents, hcontents, haccepts, hfailed⟩
      · cases h
      · split at h <;> cases h

/-- What is put together from steps of a proof is no sentence only if it is not a sentence that is
added to them. -/
theorem WellBuilt.not_joins_of_misapplied (h : WellBuilt p) {failure : Failure}
    (hmisapplied : p.apply choices rule indices = .refused (.misapplied failure)) :
    ¬rule.Joins choices := by
  intro hjoins
  obtain ⟨contents, hcontents, haccepts, hfailed⟩ := apply_misapplied_inv hmisapplied
  refine Rule.apply_ne_error (fun c hc => ?_) haccepts hjoins failure hfailed
  obtain ⟨s, hs, rfl⟩ := exists_step_of_mem_contents hcontents hc
  exact h.built.isRead.2 s hs

/-- The proof `q` is `p` with one more step, which the rule has derived from the steps with the
given numbers, and with the conclusion looked for. -/
structure Adds (p : Proof) (rule : Rule) (indices : List Int) (q : Proof) : Prop where
  step : ∃ s, q.steps = p.steps ++ [s] ∧ s.index = p.next ∧ s.justification.text = rule.name ∧
    s.references = .steps indices
  next : q.next = p.next + 1
  premises : q.premises = p.premises
  conclusion : q.conclusion = p.conclusion
  flag : q.Exact

theorem eq_of_derived {r : Rule} (h : p.apply choices rule indices = .derived r q) : r = rule := by
  unfold apply at h
  split at h
  · cases h
  · split at h
    · cases h
    · cases h
    · split at h
      · cases h
      · cases h
      · split at h
        · cases h
        · cases h
          rfl

theorem WellBuilt.adds_of_derived (h : WellBuilt p) {r : Rule}
    (happly : p.apply choices rule indices = .derived r q) : p.Adds rule indices q := by
  obtain ⟨contents, s, -, -, -, rfl⟩ := apply_inv happly
  have hlooked := looked_refreshed (p := p.addStep (.sentence s) (.rule rule) indices)
    fun hnone => h.incomplete (.inl hnone)
  have hflag := hlooked.flag
  refine ⟨⟨_, steps_refreshed _, rfl, rfl, rfl⟩, next_refreshed _, premises_refreshed _,
    conclusion_refreshed _, ?_⟩
  rwa [← steps_refreshed (p.addStep _ _ _), List.take_length] at hflag

/-- A rule that is called is refused or adds a step. -/
theorem WellBuilt.application (h : WellBuilt p) (choices : Choices) (name : String)
    (indices : List Int) :
    (∃ cause, p.applyCalled choices name (.steps indices) = .refused cause ∧
      ∀ failure, cause = .misapplied failure →
        ∃ rule, Rule.called? name = some rule ∧ ¬rule.Joins choices) ∨
    ∃ rule q, p.applyCalled choices name (.steps indices) = .derived rule q ∧
      Rule.called? name = some rule ∧ p.Adds rule indices q := by
  cases hcalled : Rule.called? name with
  | none =>
    refine .inl ⟨.unknownRule name, by rw [applyCalled, hcalled], fun failure hcause => ?_⟩
    cases hcause
  | some rule =>
    have happlied : p.applyCalled choices name (.steps indices) = p.apply choices rule indices := by
      rw [applyCalled, hcalled]
    rw [happlied]
    cases hanswer : p.apply choices rule indices with
    | failed cause => exact absurd hanswer (h.apply_ne_failed _ _ _ _)
    | refused cause =>
      refine .inl ⟨cause, rfl, ?_⟩
      rintro failure rfl
      exact ⟨rule, rfl, h.not_joins_of_misapplied hanswer⟩
    | derived r q =>
      obtain rfl := eq_of_derived hanswer
      exact .inr ⟨r, q, rfl, rfl, h.adds_of_derived hanswer⟩

/-- A rule called by whatever name and applied to steps of whatever numbers, with whatever choices,
is refused and leaves the proof as it is, or adds one step. No text that a rule other than addition
puts together is at fault, since it can be read; with addition it is at fault only if a text was
added that is no sentence. -/
theorem application_refused_or_adds_step (moves : List Move) (choices : Choices) (name : String)
    (indices : List Int) :
    let p := run moves
    let q := p.after (.rule choices name (.steps indices))
    ((∃ cause, p.applyCalled choices name (.steps indices) = .refused cause ∧ q = p ∧
        ("Error applying rule".toList <+: cause.message.toList →
          Rule.called? name = some .addition ∧ ∀ text, choices.added = .text text →
            ∃ e, Sentence.read text.toList = .error e)) ∨
      ∃ rule, p.applyCalled choices name (.steps indices) = .derived rule q ∧
        Rule.called? name = some rule ∧ p.Adds rule indices q) ∧
    ∀ (rule : Rule) (sentences : List Sentence), rule ≠ .addition →
      (∀ s ∈ sentences, s.IsRead) → rule.accepts (sentences.map .sentence) = .ok true →
      ∃ conclusion, rule.conclusion choices (sentences.map .sentence) = .ok conclusion ∧
        ∀ text, conclusion = some text → ∃ s, Sentence.read text = .ok s := by
  intro p q
  have hp : WellBuilt p := (reachable_run moves).wellBuilt
  refine ⟨?_, fun rule sentences hrule hread haccepts => ?_⟩
  · obtain ⟨cause, hrefused, hcause⟩ | ⟨rule, q', hderived, hcalled, hadds⟩ :=
      hp.application choices name indices
    · have hsame : q = p := by
        show p.after _ = p
        rw [after, hrefused]
      refine .inl ⟨cause, hrefused, hsame, fun hmessage => ?_⟩
      obtain ⟨failure, hmisapplied⟩ := Refusal.misapplied_of_message hmessage
      obtain ⟨rule, hcalled, hjoins⟩ := hcause failure hmisapplied
      obtain ⟨rfl, hadded⟩ := Rule.of_not_joins hjoins
      exact ⟨hcalled, hadded⟩
    · obtain rfl : q = q' := by
        show p.after _ = q'
        rw [after, hderived]
      exact .inr ⟨rule, hderived, hcalled, hadds⟩
  · refine Rule.exists_conclusion (fun c hc => ?_) haccepts fun hadd => absurd hadd hrule
    obtain ⟨s, hs, rfl⟩ := List.mem_map.mp hc
    exact ⟨s, rfl, hread s hs⟩

theorem unfinished_addition_is_refused :
    let p := run [.premise "A".toList]
    let choices : Choices := { added := .text "B ∨" }
    p.applyCalled choices "ADD" (.steps [1]) =
        .refused (.misapplied (.unreadable .endOfTokens)) ∧
      p.after (.rule choices "ADD" (.steps [1])) = p ∧
      Rule.called? "ADD" = some .addition ∧ ∃ e, Sentence.read "B ∨".toList = .error e := by
  intro p choices
  have hrefused : p.applyCalled choices "ADD" (.steps [1]) =
      .refused (.misapplied (.unreadable .endOfTokens)) := by
    unfold p choices
    cbv
  obtain ⟨⟨cause, hcause, hsame, hwhy⟩ | ⟨rule, hderived, -⟩, -⟩ :=
    application_refused_or_adds_step [.premise "A".toList] choices "ADD" [1]
  · obtain rfl : .misapplied (.unreadable .endOfTokens) = cause :=
      Derivation.refused.inj (hrefused.symm.trans hcause)
    obtain ⟨hcalled, hadded⟩ := hwhy (List.prefix_append _ _)
    exact ⟨hrefused, hsame, hcalled, hadded _ rfl⟩
  · cases hrefused.symm.trans hderived

end Proof

end Sentential
