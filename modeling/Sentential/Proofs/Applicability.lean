import Mathlib
import Sentential.Proofs.Application

/-! Whether a rule can be applied, against whether applying it derives anything. A rule tests its
premises first and then takes them apart once more to put its conclusion together. Test and draft
are compared shape by shape: what passes the test of a rule has a draft, but for one shape that
absorption accepts and then has no case for. What has a draft is derived, as every draft can be
read. -/

namespace Sentential.Rule

section

variable {c d : Content} {a b : Quote}

theorem inEitherOrder_eq {test : Content → Content → Except Failure Bool} {x y : Option Draft}
    (hx : test c d = .ok x.isSome) (hy : test d c = .ok y.isSome) :
    inEitherOrder test c d = .ok (x.or y).isSome := by
  cases x with
  | none => simpa [inEitherOrder, hx, ok_bind] using hy
  | some x => simp [inEitherOrder, hx, ok_bind, pure_eq_ok]

theorem affirms_eq (hc : c.quote? = some a) (hd : d.quote? = some b) :
    affirms c d = .ok (affirmed a.formula b.formula).isSome := by
  simp only [affirms, (Content.of_quote? hc).2.1, (Content.of_quote? hd).1, ok_bind, pure_eq_ok]
  generalize a.formula = f, b.formula = g
  fun_cases affirmed f g with
  | case1 q => simp
  | case2 p q hne => simp [hne]
  | case3 g hother => grind

theorem denies_eq (hc : c.quote? = some a) (hd : d.quote? = some b) :
    denies c d = .ok (denied a.formula b.formula).isSome := by
  simp only [denies, (Content.of_quote? hc).1, (Content.of_quote? hd).1, ok_bind, pure_eq_ok]
  generalize a.formula = f, b.formula = g
  fun_cases denied f g with
  | case1 p q => simp
  | case2 p q r hne => simp [hne]
  | case3 f g hother => grind

theorem excludes_eq (hc : c.quote? = some a) (hd : d.quote? = some b) :
    excludes c d = .ok (remaining a.formula b.formula).isSome := by
  simp only [excludes, (Content.of_quote? hc).1, (Content.of_quote? hd).1, ok_bind, pure_eq_ok]
  generalize a.formula = f, b.formula = g
  fun_cases remaining f g with
  | case1 q r => simp
  | case2 p q hne => simp
  | case3 p q r hp hq => simp [hp, hq]
  | case4 f g hother => grind

theorem isSome_resolved (p q r s : Formula) :
    (resolved p q r s).isSome =
      (complementary p r || complementary p s || complementary q r || complementary q s) := by
  unfold resolved
  repeat' split
  all_goals simp_all

theorem clash_eq (hc : c.quote? = some a) (hd : d.quote? = some b) :
    clash c d = .ok (fromDisjunctions a.formula b.formula).isSome := by
  simp only [clash, (Content.of_quote? hc).1, (Content.of_quote? hd).1, ok_bind, pure_eq_ok]
  generalize a.formula = f, b.formula = g
  fun_cases fromDisjunctions f g with
  | case1 p q r s => simp [isSome_resolved]
  | case2 f g hother => grind

end

theorem isSome_kept (side : Side) (f : Formula) : (kept side f).isSome = joinedBy .and f := by
  cases f with
  | letter a => rfl
  | not f => rfl
  | binary c p q => cases c <;> cases side <;> rfl

theorem isSome_directed (direction : Direction) (f : Formula) :
    (directed direction f).isSome = joinedBy .iff f := by
  cases f with
  | letter a => rfl
  | not f => rfl
  | binary c p q => cases c <;> cases direction <;> rfl

theorem exists_sides {c : Connective} {f : Formula} (h : joinedBy c f = true) :
    ∃ p q, f = .binary c p q := by
  cases f with
  | binary op p q => exact ⟨p, q, by rw [of_decide_eq_true h]⟩
  | letter a => cases h
  | not f => cases h

theorem isSome_dualized (c d : Connective) (f : Formula) :
    (dualized c d f).isSome = isDeMorgan c d f := by
  fun_cases dualized c d f <;> grind [isDeMorgan]

theorem isSome_transposedDraft (f : Formula) :
    (transposedDraft f).isSome = joinedBy .implies f := by
  fun_cases transposedDraft f <;> grind [joinedBy, exists_sides]

theorem isSome_material (f : Formula) : (material f).isSome = isMaterial f := by
  fun_cases material f <;> grind [isMaterial]

theorem isSome_exportedDraft {f : Formula} (h : isNested f = true) :
    (exportedDraft f).isSome = true := by
  unfold isNested at h
  split at h
  · next p q =>
    obtain hq | hp := (Bool.or_eq_true _ _).mp h
    · obtain ⟨q, r, rfl⟩ := exists_sides hq
      rfl
    · obtain ⟨p, q, rfl⟩ := exists_sides hp
      unfold exportedDraft
      split <;> simp_all
  · cases h

theorem isSome_dilemma {formulas : List Formula} (h : isDilemma formulas = true) :
    (dilemma formulas).isSome = true := by
  unfold isDilemma at h
  split at h
  · next hcond hdisj =>
    simp only [dilemma, hcond, hdisj]
    split <;> rfl
  · cases h

/-- A conditional has the antecedent as a side of its consequent, if that is a conjunction. -/
def Absorbs (f : Formula) : Prop :=
  ∀ p q r, f = .binary .implies p (.binary .and q r) → q = p ∨ r = p

theorem isSome_absorbedDraft {f : Formula} (h : joinedBy .implies f = true) (habsorbs : Absorbs f) :
    (absorbedDraft f).isSome = true := by
  fun_cases absorbedDraft f with
  | case1 | case2 | case4 => rfl
  | case3 p q r hq hr => exact absurd (habsorbs p q r rfl) (not_or.mpr ⟨hq, hr⟩)
  | case5 f _ hother =>
    obtain ⟨p, q, rfl⟩ := exists_sides h
    exact absurd rfl (hother p q)

section

variable {rule : Rule} {choices : Choices} {contents : List Content} {quotes : List Quote}

theorem of_shaped {test : Formula → Bool} {c : Content} {a : Quote} (hc : c.quote? = some a)
    (h : shaped test c = .ok true) : test a.formula = true :=
  Except.ok.inj ((shaped_eq hc).symm.trans h)

theorem isSome_fromOne {c : Content} {a : Quote} (hc : c.quote? = some a)
    (hmode : choices.mode = .introduce) (hjoins : rule.Joins choices)
    (habsorbs : rule = absorption → Absorbs a.formula)
    (h : rule.accepts [c] = .ok true) : (rule.fromOne choices a).isSome = true := by
  cases rule with
  | conjunctionElimination => exact (isSome_kept _ _).trans (of_shaped hc h)
  | simplification => exact (isSome_kept _ _).trans (of_shaped hc h)
  | addition => rw [fromOne, Option.isSome_map, hjoins rfl]
  | biconditionalElimination => exact (isSome_directed _ _).trans (of_shaped hc h)
  | doubleNegation => rw [fromOne, hmode]; rfl
  | deMorganConjunction => exact (isSome_dualized _ _ _).trans (of_shaped hc h)
  | deMorganDisjunction => exact (isSome_dualized _ _ _).trans (of_shaped hc h)
  | transposition => exact (isSome_transposedDraft _).trans (of_shaped hc h)
  | implication =>
    have htest := bind_of_eq_ok (Content.of_quote? hc).2.1 fun f => .ok (isMaterial f)
    exact (isSome_material _).trans (Except.ok.inj (htest.symm.trans h))
  | exportation => exact isSome_exportedDraft (of_shaped hc h)
  | absorption => exact isSome_absorbedDraft (of_shaped hc h) (habsorbs rfl)
  | modusPonens | modusTollens | hypotheticalSyllogism | disjunctiveSyllogism
  | conjunctionIntroduction | biconditionalIntroduction | resolution | constructiveDilemma =>
    cases h

theorem isSome_fromTwo {c d : Content} {a b : Quote} (hc : c.quote? = some a)
    (hd : d.quote? = some b) (h : rule.accepts [c, d] = .ok true) :
    (rule.fromTwo a b).isSome = true := by
  cases rule with
  | modusPonens =>
    exact Except.ok.inj ((inEitherOrder_eq (affirms_eq hc hd) (affirms_eq hd hc)).symm.trans h)
  | modusTollens =>
    exact Except.ok.inj ((inEitherOrder_eq (denies_eq hc hd) (denies_eq hd hc)).symm.trans h)
  | disjunctiveSyllogism =>
    exact Except.ok.inj ((inEitherOrder_eq (excludes_eq hc hd) (excludes_eq hd hc)).symm.trans h)
  | hypotheticalSyllogism | biconditionalIntroduction =>
    obtain ⟨p, q, r, s, ha, hb, -⟩ := conditionals_of_accepted hc hd h
    rw [fromTwo, ha, hb]
    rfl
  | conjunctionIntroduction => rfl
  | resolution => exact Except.ok.inj ((clash_eq hc hd).symm.trans h)
  | conjunctionElimination | addition | simplification | biconditionalElimination
  | doubleNegation | deMorganConjunction | deMorganDisjunction | transposition | implication
  | exportation | absorption | constructiveDilemma => cases h

/-- What a rule accepts has a draft. Absorption is an exception, double negation has to introduce,
and addition has to be given a sentence. -/
theorem isSome_draft (hquoted : Quoted contents quotes) (hmode : choices.mode = .introduce)
    (hjoins : rule.Joins choices)
    (habsorbs : ∀ q, quotes = [q] → rule = absorption → Absorbs q.formula)
    (h : rule.accepts contents = .ok true) : (rule.draft choices quotes).isSome = true := by
  have hformulas := hquoted.formulas
  obtain _ | ⟨hc, _ | ⟨hd, _ | ⟨he, _ | _⟩⟩⟩ := hquoted
  · cases rule <;> cases h
  · exact isSome_fromOne hc hmode hjoins (habsorbs _ rfl) h
  · exact isSome_fromTwo hc hd h
  · cases rule with
    | constructiveDilemma =>
      have htest := bind_of_eq_ok hformulas fun formulas => .ok (isDilemma formulas)
      exact isSome_dilemma (Except.ok.inj (htest.symm.trans h))
    | _ => cases h
  · cases rule <;> cases h

theorem apply_of_refused (h : rule.accepts contents = .ok false) :
    rule.apply choices contents = .ok none := by
  simp [apply, h, ok_bind, pure_eq_ok]

end

/-- The rule is absorption, and the one sentence is a conditional whose consequent is a conjunction
that does not have the antecedent as a side. -/
def Stalls (rule : Rule) (sentences : List Sentence) : Prop :=
  rule = absorption ∧ ∃ s p q r, sentences = [s] ∧
    s.formula = some (.binary .implies p (.binary .and q r)) ∧ q ≠ p ∧ r ≠ p

/-- Absorption accepts such a conditional and derives nothing from it. -/
theorem Stalls.apply_eq {rule : Rule} {sentences : List Sentence} (h : rule.Stalls sentences)
    (choices : Choices) : rule.accepts (sentences.map .sentence) = .ok true ∧
      rule.apply choices (sentences.map .sentence) = .ok none := by
  obtain ⟨rfl, s, p, q, r, rfl, hs, hq, hr⟩ := h
  have hquote : (Content.sentence s).quote? =
      some ⟨s.text, .binary .implies p (.binary .and q r)⟩ := by
    rw [Content.quote?, hs]
    rfl
  have haccepts : absorption.accepts [.sentence s] = .ok true := shaped_eq hquote
  have hnone : absorption.conclusion choices [.sentence s] = .ok none := by
    refine (fromFormula_eq hquote (absorbed_eq _)).trans ?_
    simp [absorbedDraft, hq, hr]
  refine ⟨haccepts, ?_⟩
  simp [apply, haccepts, hnone, ok_bind, pure_eq_ok]

/-- What a rule accepts it derives, if it does not stall. -/
theorem exists_derived {rule : Rule} {choices : Choices} {sentences : List Sentence}
    (hread : ∀ s ∈ sentences, s.IsRead) (hmode : choices.mode = .introduce)
    (hjoins : rule.Joins choices) (hstalls : ¬rule.Stalls sentences)
    (h : rule.accepts (sentences.map .sentence) = .ok true) :
    ∃ s, rule.apply choices (sentences.map .sentence) = .ok (some s) := by
  have hpremises : ∀ c ∈ sentences.map Content.sentence, ∃ t, c = .sentence t ∧ t.IsRead := by
    simpa using hread
  obtain ⟨quotes, hquoted, hquotes⟩ := exists_quoted hpremises
  have habsorbs : ∀ q, quotes = [q] → rule = absorption → Absorbs q.formula := by
    rintro a rfl rfl p q r hformula
    obtain ⟨s, rfl⟩ : ∃ s, sentences = [s] :=
      List.length_eq_one_iff.mp (by simpa using hquoted.length_eq)
    obtain _ | ⟨hquote, -⟩ := hquoted
    obtain ⟨f, hf, rfl⟩ := Option.map_eq_some_iff.mp hquote
    by_contra hsides
    rw [not_or] at hsides
    exact hstalls ⟨rfl, s, p, q, r, rfl, hf.trans (congrArg some hformula), hsides⟩
  obtain ⟨d, hdraft⟩ :=
    Option.isSome_iff_exists.mp (isSome_draft hquoted hmode hjoins habsorbs h)
  have hconclusion := conclusion_eq_draft hquoted hjoins
  rw [hdraft, Option.map_some] at hconclusion
  obtain ⟨s, hs⟩ := Draft.exists_read ((restsOn_of_draft hquoted h hdraft).1 hquotes)
  exact ⟨s, apply_of_read h hconclusion hs⟩

/-- Addition joins the letter B if it is not told what to join. -/
theorem joins_of_default (rule : Rule) {choices : Choices} (h : choices.added = .text "B") :
    rule.Joins choices := by
  have hread : Sentence.read "B".toList = .ok ⟨['B'], some (.letter 'B'), ['B']⟩ :=
    Sentence.read_of_derives (.sign (by decide) (by decide) .nil)
      ((Derives.letter 'B').mono (Nat.zero_le _))
  intro _
  rw [h, addedQuote?, hread]
  rfl

/-- A rule tells of sentences that were read, however many, whether it can be applied to them. If it
says no it derives nothing, and if it says yes it derives a sentence, whatever side or direction is
chosen; but absorption says yes to a conditional whose consequent is a conjunction without the
antecedent as a side, and derives nothing from it. -/
theorem accepted_is_derived_unless_stalled {sentences : List Sentence}
    (hread : ∀ s ∈ sentences, s.IsRead) (rule : Rule) (side : Side) (direction : Direction) :
    let premises := sentences.map Content.sentence
    let derived := rule.apply { side, direction, mode := .introduce } premises
    ∃ can, rule.accepts premises = .ok can ∧
      (can = true → ¬rule.Stalls sentences → ∃ s, derived = .ok (some s)) ∧
      (can = false → derived = .ok none) ∧
      (rule.Stalls sentences → can = true ∧ derived = .ok none) := by
  intro premises derived
  have hpremises : ∀ c ∈ premises, ∃ t, c = .sentence t ∧ t.IsRead := by
    simpa [premises] using hread
  obtain ⟨quotes, hquoted, -⟩ := exists_quoted hpremises
  obtain ⟨can, hcan⟩ : ∃ can, rule.accepts premises = .ok can := exists_accepts hquoted
  refine ⟨can, hcan, ?_, ?_, fun hstalls => ?_⟩
  · rintro rfl hstalls
    exact exists_derived hread rfl (joins_of_default rule rfl) hstalls hcan
  · rintro rfl
    exact apply_of_refused hcan
  · obtain ⟨haccepts, hnone⟩ := hstalls.apply_eq { side, direction, mode := .introduce }
    exact ⟨Except.ok.inj (hcan.symm.trans haccepts), hnone⟩

theorem absorption_derives_from_repeated_antecedent :
    let f : Formula := .binary .implies (.letter 'A') (.binary .and (.letter 'B') (.letter 'A'))
    let s : Sentence := ⟨"A → B ∧ A".toList, some f, ['A', 'B']⟩
    Sentence.read s.source = .ok s ∧ absorption.accepts [.sentence s] = .ok true ∧
      ∃ t, absorption.apply { mode := .introduce } [.sentence s] = .ok (some t) := by
  intro f s
  have hs : Sentence.read s.source = .ok s := by
    unfold s f
    cbv
  have hread : ∀ t ∈ [s], t.IsRead := by
    simp only [List.forall_mem_cons]
    exact ⟨⟨_, hs⟩, List.forall_mem_nil _⟩
  have haccepts : absorption.accepts [.sentence s] = .ok true := rfl
  have hnot : ¬absorption.Stalls [s] := by
    rintro ⟨-, t, p, q, r, ht, hformula, -, hr⟩
    obtain rfl : s = t := by simpa using ht
    have hsides : .letter 'A' = p ∧ .letter 'B' = q ∧ .letter 'A' = r := by
      simpa [s, f] using hformula
    exact hr (hsides.2.2.symm.trans hsides.1)
  obtain ⟨can, hcan, hderived, -⟩ :=
    accepted_is_derived_unless_stalled hread absorption .left .forward
  exact ⟨hs, haccepts, hderived (Except.ok.inj (hcan.symm.trans haccepts)) hnot⟩

/-- From a conjunction of other formulas absorption derives nothing, though it accepts the
conditional. -/
theorem absorption_accepts_and_derives_nothing :
    ∃ s, Sentence.read "A → B ∧ C".toList = .ok s ∧
      absorption.accepts [.sentence s] = .ok true ∧
      absorption.apply { mode := .introduce } [.sentence s] = .ok none := by
  have hread : Sentence.read "A → B ∧ C".toList = .ok ⟨"A → B ∧ C".toList,
      some (.binary .implies (.letter 'A') (.binary .and (.letter 'B') (.letter 'C'))),
      ['A', 'B', 'C']⟩ := by
    cbv
  exact ⟨_, hread, rfl, rfl⟩

end Sentential.Rule
