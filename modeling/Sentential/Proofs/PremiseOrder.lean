import Mathlib
import Sentential.Proofs.Applicability
import Sentential.Proofs.Textbook

/-! The order of premises. A rule for two premises tests them in both orders or has a symmetric test,
and the three premises of a dilemma are told apart by their shapes, so that whether a rule can be
applied does not depend on the order. What it derives may; but where a rule looks for the one order
in which the premises stand to each other as it wants them, there is only one such order. In modus
ponens this is so because no two formulas are each the antecedent of the other. -/

namespace Sentential.Rule

/-! Two premises. -/

section

variable {c d : Content} {a b : Quote}

theorem inEitherOrder_comm {test : Content → Content → Except Failure Bool}
    (hforth : ∃ r, test c d = .ok r) (hback : ∃ r, test d c = .ok r) :
    inEitherOrder test c d = inEitherOrder test d c := by
  obtain ⟨r, hr⟩ := hforth
  obtain ⟨s, hs⟩ := hback
  cases r <;> cases s <;> simp [inEitherOrder, hr, hs, ok_bind, pure_eq_ok]

theorem bothConditional_comm {test : Formula → Formula → Formula → Formula → Bool}
    (htest : ∀ p q r s, test p q r s = test r s p q) (hc : c.quote? = some a)
    (hd : d.quote? = some b) : bothConditional test c d = bothConditional test d c := by
  simp only [bothConditional, (Content.of_quote? hc).1, (Content.of_quote? hd).1, ok_bind]
  grind

theorem complementary_comm (f g : Formula) : complementary f g = complementary g f :=
  Bool.or_comm _ _

theorem clash_comm (hc : c.quote? = some a) (hd : d.quote? = some b) : clash c d = clash d c := by
  simp only [clash, (Content.of_quote? hc).1, (Content.of_quote? hd).1, ok_bind]
  grind [complementary_comm]

theorem accepts_swap (rule : Rule) (hc : c.quote? = some a) (hd : d.quote? = some b) :
    rule.accepts [c, d] = rule.accepts [d, c] := by
  cases rule with
  | modusPonens => exact inEitherOrder_comm (exists_affirms hc hd) (exists_affirms hd hc)
  | modusTollens => exact inEitherOrder_comm (exists_denies hc hd) (exists_denies hd hc)
  | disjunctiveSyllogism =>
    exact inEitherOrder_comm (exists_excludes hc hd) (exists_excludes hd hc)
  | hypotheticalSyllogism | biconditionalIntroduction =>
    exact bothConditional_comm (fun p q r s => by grind) hc hd
  | resolution => exact clash_comm hc hd
  | conjunctionIntroduction | conjunctionElimination | addition | simplification
  | biconditionalElimination | doubleNegation | deMorganConjunction | deMorganDisjunction
  | transposition | implication | exportation | absorption | constructiveDilemma => rfl

end

/-! Three premises. -/

/-- Three formulas make a dilemma exactly if they are, in some order, a disjunction and a conditional
from each of its sides. -/
theorem isDilemma_iff_perm {formulas : List Formula} (hlength : formulas.length = 3) :
    isDilemma formulas = true ↔ ∃ p q r s,
      formulas.Perm [.binary .or p r, .binary .implies p q, .binary .implies r s] := by
  constructor
  · intro h
    obtain ⟨inference, hschema⟩ := exists_schemaOfThree h hlength
    cases hschema with
    | @inOrder p q r s before after hrest =>
      refine ⟨p, q, r, s, List.perm_middle.trans ?_⟩
      rw [hrest]
    | @turned p q r s before after _ hrest =>
      refine ⟨p, q, r, s, List.perm_middle.trans ?_⟩
      rw [hrest]
      exact (List.Perm.swap _ _ _).cons _
  · rintro ⟨p, q, r, s, hperm⟩
    obtain ⟨before, after, rfl⟩ := List.append_of_mem (hperm.mem_iff.mpr (.head _))
    have hrest : (before ++ after).Perm [.binary .implies p q, .binary .implies r s] :=
      List.Perm.cons_inv (List.perm_middle.symm.trans hperm)
    -- what is left are the conditionals, in the order of the sides or turned
    rcases List.perm_pair.mp hrest with hrest | hrest
    all_goals
      obtain ⟨hconditionals, hdisjunction, -⟩ := dilemma_parts (a := p) (b := r) hrest
      simp [isDilemma, hconditionals, hdisjunction]

theorem isDilemma_perm {formulas others : List Formula} (hperm : formulas.Perm others)
    (hlength : formulas.length = 3) : isDilemma formulas = isDilemma others := by
  rw [Bool.eq_iff_iff, isDilemma_iff_perm hlength, isDilemma_iff_perm (hperm.length_eq ▸ hlength)]
  have hsame : ∀ target, formulas.Perm target ↔ others.Perm target := fun target =>
    ⟨hperm.symm.trans, hperm.trans⟩
  simp only [hsame]

/-- Three premises are accepted only as a dilemma. -/
theorem accepts_three (rule : Rule) {contents : List Content} {quotes : List Quote}
    (hquoted : Quoted contents quotes) (hlength : contents.length = 3) :
    rule.accepts contents =
      .ok (rule = constructiveDilemma && isDilemma (quotes.map Quote.formula)) := by
  have hformulas := hquoted.formulas
  obtain ⟨c, d, e, rfl⟩ := List.length_eq_three.mp hlength
  cases rule with
  | constructiveDilemma => exact bind_of_eq_ok hformulas _
  | _ => rfl

/-! Any number of premises. -/

theorem accepts_of_many (rule : Rule) {contents : List Content} (h : 3 < contents.length) :
    rule.accepts contents = .ok false := by
  match contents with
  | [] | [_] | [_, _] | [_, _, _] => simp at h
  | _ :: _ :: _ :: _ :: _ => cases rule <;> rfl

theorem exists_quotes {sentences : List Sentence} (hread : ∀ s ∈ sentences, s.IsRead) :
    ∃ quotes, Quoted (sentences.map .sentence) quotes := by
  have hpremises : ∀ c ∈ sentences.map Content.sentence, ∃ t, c = .sentence t ∧ t.IsRead := by
    simpa using hread
  obtain ⟨quotes, hquoted, -⟩ := exists_quoted hpremises
  exact ⟨quotes, hquoted⟩

theorem accepts_perm (rule : Rule) {sentences others : List Sentence}
    (hread : ∀ s ∈ sentences, s.IsRead) (hperm : sentences.Perm others) :
    rule.accepts (sentences.map .sentence) = rule.accepts (others.map .sentence) := by
  obtain ⟨quotes, hquoted⟩ := exists_quotes hread
  -- by the number of premises: two can only change places, and of three only a dilemma is accepted
  rcases sentences with _ | ⟨s, _ | ⟨t, _ | ⟨u, _ | ⟨v, rest⟩⟩⟩⟩
  · rw [List.nil_perm.mp hperm]
  · rw [List.perm_singleton.mp hperm.symm]
  · obtain _ | ⟨hs, _ | ⟨ht, _⟩⟩ := hquoted
    rcases List.perm_pair.mp hperm.symm with rfl | rfl
    · rfl
    · exact accepts_swap rule hs ht
  · obtain ⟨quotes', hquoted'⟩ := exists_quotes fun s hs => hread s (hperm.mem_iff.mpr hs)
    have hformulas : (quotes.map Quote.formula).Perm (quotes'.map Quote.formula) := by
      have hsome := hperm.map Sentence.formula
      rw [hquoted.map_formula, hquoted'.map_formula] at hsome
      exact (List.map_perm_map_iff (Option.some_injective _)).mp hsome
    have hlength : (quotes.map Quote.formula).length = 3 := by
      rw [List.length_map, ← hquoted.length_eq]
      rfl
    have hothers : (others.map Content.sentence).length = 3 := by
      rw [List.length_map, ← hperm.length_eq]
      rfl
    rw [accepts_three rule hquoted rfl, accepts_three rule hquoted' hothers,
      isDilemma_perm hformulas hlength]
  · have hmany : 3 < ((s :: t :: u :: v :: rest).map Content.sentence).length := by simp
    have hothers : 3 < (others.map Content.sentence).length := by
      rw [List.length_map, ← hperm.length_eq]
      simp
    rw [accepts_of_many rule hmany, accepts_of_many rule hothers]

/-! What is derived from two premises. -/

/-- The rules that derive something from two premises in the one order in which these stand to each
other as the rule wants them. -/
def seeking : List Rule :=
  [modusPonens, modusTollens, disjunctiveSyllogism]

theorem affirmed_inv {f g : Formula} (h : affirmed f g ≠ none) : ∃ q, g = .binary .implies f q := by
  revert h
  fun_cases affirmed f g <;> simp

theorem denied_inv {f g : Formula} (h : denied f g ≠ none) :
    ∃ p q, f = .binary .implies p q ∧ g = .not q := by
  revert h
  fun_cases denied f g <;> simp

theorem remaining_inv {f g : Formula} (h : remaining f g ≠ none) :
    ∃ p q r, f = .binary .or p q ∧ g = .not r := by
  revert h
  fun_cases remaining f g <;> simp

/-- Two formulas do not stand to each other in both ways. -/
def OneWay (derive : Formula → Formula → Option Draft) : Prop :=
  ∀ f g, derive f g = none ∨ derive g f = none

theorem OneWay.or_comm {derive : Formula → Formula → Option Draft} (h : OneWay derive)
    (f g : Formula) : (derive f g).or (derive g f) = (derive g f).or (derive f g) := by
  rcases h f g with hnone | hnone <;> simp [hnone]

/-- Neither of two formulas that are each the antecedent of the other could be the smaller one. -/
theorem oneWay_affirmed : OneWay affirmed := by
  intro f g
  by_contra h
  rw [not_or] at h
  obtain ⟨q, hg⟩ := affirmed_inv h.1
  obtain ⟨r, hf⟩ := affirmed_inv h.2
  have hsmaller : sizeOf f < sizeOf g := by
    rw [hg, Formula.binary.sizeOf_spec]
    omega
  have hgreater : sizeOf g < sizeOf f := by
    rw [hf, Formula.binary.sizeOf_spec]
    omega
  omega

theorem oneWay_denied : OneWay denied := by
  intro f g
  by_contra h
  rw [not_or] at h
  obtain ⟨p, q, hf, -⟩ := denied_inv h.1
  obtain ⟨-, r, -, hf'⟩ := denied_inv h.2
  cases hf.symm.trans hf'

theorem oneWay_remaining : OneWay remaining := by
  intro f g
  by_contra h
  rw [not_or] at h
  obtain ⟨p, q, -, hf, -⟩ := remaining_inv h.1
  obtain ⟨-, -, r, -, hf'⟩ := remaining_inv h.2
  cases hf.symm.trans hf'

theorem fromTwo_comm {rule : Rule} (hrule : rule ∈ seeking) (a b : Quote) :
    rule.fromTwo a b = rule.fromTwo b a := by
  simp only [seeking, List.mem_cons, List.not_mem_nil, or_false] at hrule
  obtain rfl | rfl | rfl := hrule
  · exact oneWay_affirmed.or_comm _ _
  · exact oneWay_denied.or_comm _ _
  · exact oneWay_remaining.or_comm _ _

theorem apply_comm {rule : Rule} (hrule : rule ∈ seeking) (choices : Choices) {c d : Content}
    {a b : Quote} (hc : c.quote? = some a) (hd : d.quote? = some b) :
    rule.apply choices [c, d] = rule.apply choices [d, c] := by
  have hconclusion : rule.conclusion choices [c, d] = rule.conclusion choices [d, c] := by
    rw [conclusion_eq_fromTwo hc hd, conclusion_eq_fromTwo hd hc, fromTwo_comm hrule]
  simp only [apply, accepts_swap rule hc hd, hconclusion]

/-- A rule that is not told to add anything answers for all sentences that were read. -/
theorem exists_apply {rule : Rule} {choices : Choices} {sentences : List Sentence}
    (hread : ∀ s ∈ sentences, s.IsRead) (hjoins : rule.Joins choices) :
    ∃ derived, rule.apply choices (sentences.map .sentence) = .ok derived := by
  obtain ⟨quotes, hquoted⟩ := exists_quotes hread
  obtain ⟨can, hcan⟩ : ∃ can, rule.accepts (sentences.map .sentence) = .ok can :=
    exists_accepts hquoted
  cases can with
  | false => exact ⟨none, apply_of_refused hcan⟩
  | true =>
    cases happly : rule.apply choices (sentences.map .sentence) with
    | ok derived => exact ⟨derived, rfl⟩
    | error failure =>
      exact absurd happly (apply_ne_error (by simpa using hread) hcan hjoins failure)

/-- Whether a rule can be applied to sentences that were read, however many, does not depend on their
order. Modus ponens, modus tollens and the disjunctive syllogism also derive the same sentence from
two premises in both orders, or nothing in either. -/
theorem order_of_premises_is_irrelevant (rule : Rule) :
    (∀ sentences others : List Sentence, (∀ s ∈ sentences, s.IsRead) → sentences.Perm others →
      ∃ can, rule.accepts (sentences.map .sentence) = .ok can ∧
        rule.accepts (others.map .sentence) = .ok can) ∧
    (rule ∈ seeking → ∀ (choices : Choices) (s t : Sentence), s.IsRead → t.IsRead →
      ∃ derived, rule.apply choices [.sentence s, .sentence t] = .ok derived ∧
        rule.apply choices [.sentence t, .sentence s] = .ok derived) := by
  constructor
  · intro sentences others hread hperm
    obtain ⟨quotes, hquoted⟩ := exists_quotes hread
    obtain ⟨can, hcan⟩ : ∃ can, rule.accepts (sentences.map .sentence) = .ok can :=
      exists_accepts hquoted
    exact ⟨can, hcan, (accepts_perm rule hread hperm).symm.trans hcan⟩
  · intro hrule choices s t hs ht
    have hread : ∀ u ∈ [s, t], u.IsRead := by simp [hs, ht]
    have hjoins : rule.Joins choices := by
      rintro rfl
      exact absurd hrule (by decide)
    obtain ⟨quotes, _ | ⟨hquote, _ | ⟨hquote', _⟩⟩⟩ := exists_quotes hread
    obtain ⟨derived, hderived⟩ := exists_apply hread hjoins
    exact ⟨derived, hderived, (apply_comm hrule choices hquote hquote').symm.trans hderived⟩

set_option maxRecDepth 4000 in
/-- Both premises are conditionals here, and one is the antecedent of the other. -/
theorem order_is_irrelevant_to_nested_conditionals :
    let f : Formula := .binary .implies (.letter 'A') (.letter 'B')
    let s : Sentence := ⟨"A → B".toList, some f, ['A', 'B']⟩
    let t : Sentence :=
      ⟨"(A → B) → C".toList, some (.binary .implies f (.letter 'C')), ['A', 'B', 'C']⟩
    let u : Sentence := ⟨['C'], some (.letter 'C'), ['C']⟩
    Sentence.read s.source = .ok s ∧ Sentence.read t.source = .ok t ∧
      modusPonens.accepts [.sentence s, .sentence t] = .ok true ∧
      modusPonens.accepts [.sentence t, .sentence s] = .ok true ∧
      modusPonens.apply {} [.sentence s, .sentence t] = .ok (some u) ∧
      modusPonens.apply {} [.sentence t, .sentence s] = .ok (some u) := by
  intro f s t u
  obtain ⟨hs, ht, hderived⟩ : Sentence.read s.source = .ok s ∧ Sentence.read t.source = .ok t ∧
      modusPonens.apply {} [.sentence s, .sentence t] = .ok (some u) := by
    unfold s t u f
    refine ⟨?_, ?_, ?_⟩ <;> cbv
  obtain ⟨haccepts, happly⟩ := order_of_premises_is_irrelevant modusPonens
  have hread : ∀ v ∈ [s, t], v.IsRead := by
    simp only [List.forall_mem_cons]
    exact ⟨⟨_, hs⟩, ⟨_, ht⟩, List.forall_mem_nil _⟩
  obtain ⟨can, hcan, hcan'⟩ := haccepts [s, t] [t, s] hread (List.Perm.swap t s [])
  obtain ⟨derived, hforth, hback⟩ := happly (by decide) {} s t ⟨_, hs⟩ ⟨_, ht⟩
  obtain rfl : can = true := Except.ok.inj (hcan.symm.trans rfl)
  obtain rfl : derived = some u := Except.ok.inj (hforth.symm.trans hderived)
  exact ⟨hs, ht, hcan, hcan', hforth, hback⟩

end Sentential.Rule
