import Mathlib
import Sentential.Proofs.Soundness

/-! When a rule derives the conclusion of the textbook. A rule writes its conclusion as a text, with
the parts that it has matched pasted in, some of them bare. `Rule.Schema` lists the schemas of such
rules in letters, with the conclusion and the places of the parts. If every part is read back from
its written form and binds more tightly than the connective it stands bare beside, the sentence that
is read from the text has the conclusion of the schema as its formula. -/

namespace Sentential

/-- The written form of the formula is read as the formula. -/
def Formula.ReadsBack (f : Formula) : Prop :=
  Formula.parse f.print = .ok f

/-- The formulas that are read back are those over capitals with all chains grouped to the left. -/
theorem Formula.readsBack_iff {f : Formula} :
    f.ReadsBack ↔ f.Capital ∧ f.isLeftGrouped = true := by
  constructor
  · intro h
    have hcapital := Quote.IsRead.capital (q := ⟨f.print, f⟩) (parse_eq_ok.mp h)
    exact ⟨hcapital, regroup_eq_self_iff.mp (Except.ok.inj ((parse_print hcapital).symm.trans h))⟩
  · rintro ⟨hcapital, hgrouped⟩
    exact (parse_print hcapital).trans (congrArg _ (regroup_eq_self hgrouped))

/-- Where a part stands in the text of a conclusion. -/
inductive Placement where
  /-- The part is a side of the connective, without parentheses. -/
  | bare (part : Formula) (connective : Connective)
  /-- The part stands in parentheses, or is a letter after the negation sign. -/
  | enclosed (part : Formula)

/-- The part is read back, and if it stands bare it binds more tightly than its connective. -/
def Placement.IsExact : Placement → Prop
  | bare f c => f.ReadsBack ∧ f.category.level < c.level
  | enclosed f => f.ReadsBack

/-- What a schema makes of premises: the parts that the conclusion is put together from, in their
places, and the conclusion itself. -/
structure Inference where
  parts : List Placement
  conclusion : Formula

/-- All parts stand where they are read as they are meant. -/
def Inference.IsExact (inference : Inference) : Prop :=
  ∀ placement ∈ inference.parts, placement.IsExact

theorem Connective.level_le_sides {c : Connective} {n : Nat} (h : n < c.level) :
    n ≤ c.leftCategory.level ∧ n ≤ c.rightCategory.level := by
  cases c <;> simp only [level, leftCategory, rightCategory, category, Category.tighter,
    Category.level] at h ⊢ <;> omega

namespace Draft

/-- Every part is read back and binds as tightly as its place is read; no part goes on a chain. -/
@[simp] def IsExact : Draft → Category → Prop
  | part f, k => f.ReadsBack ∧ f.category.level ≤ k.level
  | quote q, k => q.IsRead ∧ q.formula.category.level ≤ k.level
  | parens d, _ => d.IsExact .iff
  | not d, k => 1 ≤ k.level ∧ d.IsExact .not
  | join c left right, k =>
    c.level ≤ k.level ∧ left.IsExact c.leftCategory ∧ right.IsExact c.rightCategory

theorem derives_of_isExact {d : Draft} {k : Category} (h : d.IsExact k) :
    ∃ ts, Scans d.text ts ∧ Derives k ts d.formula := by
  induction d generalizing k with
  | part f =>
    obtain ⟨hback, hlevel⟩ := h
    obtain ⟨hcapital, hgrouped⟩ := Formula.readsBack_iff.mp hback
    have hder := f.derives_tokens.1.mono hlevel
    rw [Formula.regroup_eq_self hgrouped] at hder
    exact ⟨_, Formula.scans_print hcapital, hder⟩
  | quote q =>
    obtain ⟨⟨ts, hscan, hder⟩, hlevel⟩ := h
    exact ⟨ts, hscan, hder.tighten hlevel⟩
  | parens d ih =>
    obtain ⟨ts, hscan, hder⟩ := ih h
    exact ⟨_, Formula.scans_wrap hscan true, (Derives.parens hder).mono (Nat.zero_le _)⟩
  | not d ih =>
    obtain ⟨hlevel, hd⟩ := h
    obtain ⟨ts, hscan, hder⟩ := ih hd
    exact ⟨_, .sign (by decide) (by decide) hscan, (Derives.negation hder).mono hlevel⟩
  | join c left right ihl ihr =>
    obtain ⟨hlevel, hleft, hright⟩ := h
    obtain ⟨ts, hscan, hder⟩ := ihl hleft
    obtain ⟨us, hscan', hder'⟩ := ihr hright
    refine ⟨_, Formula.scans_joined c hscan hscan', (hder.binary hder').mono ?_⟩
    rw [c.level_category]
    exact hlevel

/-- The draft writes the conclusion of the inference, and exactly so if the parts stand where they
are read as they are meant. -/
structure Renders (d : Draft) (inference : Inference) : Prop where
  formula_eq : d.formula = inference.conclusion
  isExact : inference.IsExact → d.IsExact .iff

open Placement (bare enclosed)

theorem isExact_negated {f : Formula} (h : f.ReadsBack) {k : Category} (hk : 1 ≤ k.level) :
    (negated f).IsExact k := by
  refine ⟨hk, ?_⟩
  cases f with
  | letter a => exact ⟨h, Nat.zero_le _⟩
  | not f => exact ⟨h, Category.level_le_iff _⟩
  | binary c f g => exact ⟨h, Category.level_le_iff _⟩

theorem isExact_part {c : Connective} {f : Formula} (h : (bare f c).IsExact) :
    (part f).IsExact c.leftCategory ∧ (part f).IsExact c.rightCategory := by
  obtain ⟨hback, hlevel⟩ := h
  obtain ⟨hleft, hright⟩ := Connective.level_le_sides hlevel
  exact ⟨⟨hback, hleft⟩, hback, hright⟩

theorem renders_join (c : Connective) (p q : Formula) :
    (join c (part p) (part q)).Renders ⟨[bare p c, bare q c], .binary c p q⟩ where
  formula_eq := rfl
  isExact h :=
    ⟨c.level_le_iff, (isExact_part (h _ (by simp))).1, (isExact_part (h _ (by simp))).2⟩

theorem renders_negations (c : Connective) (p q : Formula) :
    (join c (negated p) (negated q)).Renders
      ⟨[enclosed p, enclosed q], .binary c (.not p) (.not q)⟩ where
  formula_eq := by simp
  isExact h := by
    have hp : p.ReadsBack := h (enclosed p) (by simp)
    have hq : q.ReadsBack := h (enclosed q) (by simp)
    obtain ⟨hleft, hright⟩ : 1 ≤ c.leftCategory.level ∧ 1 ≤ c.rightCategory.level := by
      cases c <;> decide
    exact ⟨c.level_le_iff, isExact_negated hp hleft, isExact_negated hq hright⟩

theorem renders_denial (c : Connective) (p q : Formula) :
    (not (parens (join c (part p) (part q)))).Renders
      ⟨[bare p c, bare q c], .not (.binary c p q)⟩ where
  formula_eq := rfl
  isExact h := ⟨by decide, (renders_join c p q).isExact h⟩

theorem renders_material (p q : Formula) :
    (join .or (negated p) (part q)).Renders
      ⟨[enclosed p, bare q .or], .binary .or (.not p) q⟩ where
  formula_eq := by simp
  isExact h := by
    have hp : p.ReadsBack := h (enclosed p) (by simp)
    have hq : (bare q .or).IsExact := h _ (by simp)
    exact ⟨by decide, isExact_negated hp (by decide), (isExact_part hq).2⟩

theorem renders_nested_left (c d : Connective) (p q r : Formula) :
    (join c (parens (join d (part p) (part q))) (part r)).Renders
      ⟨[bare p d, bare q d, bare r c], .binary c (.binary d p q) r⟩ where
  formula_eq := rfl
  isExact h := by
    have hr : (bare r c).IsExact := h _ (by simp)
    have hpq : Inference.IsExact ⟨[bare p d, bare q d], .binary d p q⟩ :=
      fun placement hmem => h placement (by grind)
    exact ⟨c.level_le_iff, (renders_join d p q).isExact hpq, (isExact_part hr).2⟩

theorem renders_nested_right (c d : Connective) (p q r : Formula) :
    (join c (part p) (parens (join d (part q) (part r)))).Renders
      ⟨[bare p c, bare q d, bare r d], .binary c p (.binary d q r)⟩ where
  formula_eq := rfl
  isExact h := by
    have hp : (bare p c).IsExact := h _ (by simp)
    have hqr : Inference.IsExact ⟨[bare q d, bare r d], .binary d q r⟩ :=
      fun placement hmem => h placement (by grind)
    exact ⟨c.level_le_iff, (isExact_part hp).1, (renders_join d q r).isExact hqr⟩

end Draft

namespace Rule

open Placement (bare enclosed)

/-- The schemas that take one premise. Where a premise matches two schemas of a rule, the rule uses
the more special one, and the condition of the other leaves the premise out. -/
inductive SchemaOfOne (choices : Choices) : Rule → Formula → Inference → Prop
  | forward {p q : Formula} : choices.direction = .forward →
      SchemaOfOne choices biconditionalElimination (.binary .iff p q)
        ⟨[bare p .implies, bare q .implies], .binary .implies p q⟩
  | backward {p q : Formula} : choices.direction = .backward →
      SchemaOfOne choices biconditionalElimination (.binary .iff p q)
        ⟨[bare q .implies, bare p .implies], .binary .implies q p⟩
  | deniedConjunction {p q : Formula} :
      SchemaOfOne choices deMorganConjunction (.not (.binary .and p q))
        ⟨[enclosed p, enclosed q], .binary .or (.not p) (.not q)⟩
  | deniedConjuncts {p q : Formula} :
      SchemaOfOne choices deMorganConjunction (.binary .or (.not p) (.not q))
        ⟨[bare p .and, bare q .and], .not (.binary .and p q)⟩
  | deniedDisjunction {p q : Formula} :
      SchemaOfOne choices deMorganDisjunction (.not (.binary .or p q))
        ⟨[enclosed p, enclosed q], .binary .and (.not p) (.not q)⟩
  | deniedDisjuncts {p q : Formula} :
      SchemaOfOne choices deMorganDisjunction (.binary .and (.not p) (.not q))
        ⟨[bare p .or, bare q .or], .not (.binary .or p q)⟩
  | transposition {p q : Formula} : (∀ p' q', p = .not p' → q ≠ .not q') →
      SchemaOfOne choices transposition (.binary .implies p q)
        ⟨[enclosed q, enclosed p], .binary .implies (.not q) (.not p)⟩
  | transpositionBack {p q : Formula} :
      SchemaOfOne choices .transposition (.binary .implies (.not q) (.not p))
        ⟨[bare p .implies, bare q .implies], .binary .implies p q⟩
  | implication {p q : Formula} :
      SchemaOfOne choices implication (.binary .implies p q)
        ⟨[enclosed p, bare q .or], .binary .or (.not p) q⟩
  | implicationBack {p q : Formula} :
      SchemaOfOne choices .implication (.binary .or (.not p) q)
        ⟨[bare p .implies, bare q .implies], .binary .implies p q⟩
  | importation {p q r : Formula} :
      SchemaOfOne choices exportation (.binary .implies p (.binary .implies q r))
        ⟨[bare p .and, bare q .and, bare r .implies], .binary .implies (.binary .and p q) r⟩
  | exportation {p q r : Formula} : (∀ r' r'', r ≠ .binary .implies r' r'') →
      SchemaOfOne choices .exportation (.binary .implies (.binary .and p q) r)
        ⟨[bare p .implies, bare q .implies, bare r .implies],
          .binary .implies p (.binary .implies q r)⟩
  | absorption {p q : Formula} : (∀ q' q'', q ≠ .binary .and q' q'') →
      SchemaOfOne choices absorption (.binary .implies p q)
        ⟨[bare p .implies, bare p .and, bare q .and], .binary .implies p (.binary .and p q)⟩
  | absorptionBack {p q : Formula} :
      SchemaOfOne choices .absorption (.binary .implies p (.binary .and p q))
        ⟨[bare p .implies, bare q .implies], .binary .implies p q⟩
  | absorptionBackTurned {p q : Formula} : q ≠ p →
      SchemaOfOne choices .absorption (.binary .implies p (.binary .and q p))
        ⟨[bare p .implies, bare q .implies], .binary .implies p q⟩

/-- The schemas that take two premises, whichever way round the premises and their sides are. Of the
pairs of complementary sides the first counts. -/
inductive SchemaOfTwo : Rule → Formula → Formula → Inference → Prop
  | syllogism {p q r : Formula} :
      SchemaOfTwo hypotheticalSyllogism (.binary .implies p q) (.binary .implies q r)
        ⟨[bare p .implies, bare r .implies], .binary .implies p r⟩
  | syllogismTurned {p q r : Formula} : r ≠ p →
      SchemaOfTwo hypotheticalSyllogism (.binary .implies q r) (.binary .implies p q)
        ⟨[bare p .implies, bare r .implies], .binary .implies p r⟩
  | resolutionLeftLeft {p p' q r : Formula} : complementary p p' = true →
      SchemaOfTwo resolution (.binary .or p q) (.binary .or p' r)
        ⟨[bare q .or, bare r .or], .binary .or q r⟩
  | resolutionLeftRight {p p' q r : Formula} : complementary p r = false →
      complementary p p' = true →
      SchemaOfTwo resolution (.binary .or p q) (.binary .or r p')
        ⟨[bare q .or, bare r .or], .binary .or q r⟩
  | resolutionRightLeft {p p' q r : Formula} : complementary q p' = false →
      complementary q r = false → complementary p p' = true →
      SchemaOfTwo resolution (.binary .or q p) (.binary .or p' r)
        ⟨[bare q .or, bare r .or], .binary .or q r⟩
  | resolutionRightRight {p p' q r : Formula} : complementary q r = false →
      complementary q p' = false → complementary p r = false → complementary p p' = true →
      SchemaOfTwo resolution (.binary .or q p) (.binary .or r p')
        ⟨[bare q .or, bare r .or], .binary .or q r⟩

/-- The schema of the dilemma. The disjunction stands anywhere among the premises, and the
conditionals come in the order of its sides or the other way round. -/
inductive SchemaOfThree : List Formula → Inference → Prop
  | inOrder {p q r s : Formula} {before after : List Formula} :
      before ++ after = [.binary .implies p q, .binary .implies r s] →
      SchemaOfThree (before ++ .binary .or p r :: after)
        ⟨[bare q .or, bare s .or], .binary .or q s⟩
  | turned {p q r s : Formula} {before after : List Formula} : p ≠ r →
      before ++ after = [.binary .implies r s, .binary .implies p q] →
      SchemaOfThree (before ++ .binary .or p r :: after)
        ⟨[bare q .or, bare s .or], .binary .or q s⟩

/-- What the rule is meant to infer from the formulas of its premises. -/
inductive Schema (choices : Choices) : Rule → List Formula → Inference → Prop
  | one {rule : Rule} {f : Formula} {inference : Inference} :
      SchemaOfOne choices rule f inference → Schema choices rule [f] inference
  | two {rule : Rule} {f g : Formula} {inference : Inference} :
      SchemaOfTwo rule f g inference → Schema choices rule [f, g] inference
  | three {formulas : List Formula} {inference : Inference} :
      SchemaOfThree formulas inference → Schema choices constructiveDilemma formulas inference

/-- The rules that have schemas: those that put parts of their premises together anew. -/
def assembling : List Rule :=
  [hypotheticalSyllogism, biconditionalElimination, deMorganConjunction, deMorganDisjunction,
    transposition, implication, exportation, resolution, absorption, constructiveDilemma]

section

variable {choices : Choices} {rule : Rule} {inference : Inference}

theorem SchemaOfOne.renders {f : Formula} (h : SchemaOfOne choices rule f inference) {a : Quote}
    (ha : a.formula = f) : ∃ d, rule.fromOne choices a = some d ∧ d.Renders inference := by
  cases h with
  | forward hdirection =>
    exact ⟨_, by simp [fromOne, ha, directed, hdirection], Draft.renders_join ..⟩
  | backward hdirection =>
    exact ⟨_, by simp [fromOne, ha, directed, hdirection], Draft.renders_join ..⟩
  | deniedConjunction => exact ⟨_, by simp [fromOne, ha, dualized], Draft.renders_negations ..⟩
  | deniedConjuncts => exact ⟨_, by simp [fromOne, ha, dualized], Draft.renders_denial ..⟩
  | deniedDisjunction => exact ⟨_, by simp [fromOne, ha, dualized], Draft.renders_negations ..⟩
  | deniedDisjuncts => exact ⟨_, by simp [fromOne, ha, dualized], Draft.renders_denial ..⟩
  | transposition hother =>
    refine ⟨_, ?_, Draft.renders_negations ..⟩
    rw [fromOne, ha, transposedDraft]
    exact hother
  | transpositionBack => exact ⟨_, by simp [fromOne, ha, transposedDraft], Draft.renders_join ..⟩
  | implication => exact ⟨_, by simp [fromOne, ha, material], Draft.renders_material ..⟩
  | implicationBack => exact ⟨_, by simp [fromOne, ha, material], Draft.renders_join ..⟩
  | importation => exact ⟨_, by simp [fromOne, ha, exportedDraft], Draft.renders_nested_left ..⟩
  | exportation hother =>
    refine ⟨_, ?_, Draft.renders_nested_right ..⟩
    rw [fromOne, ha, exportedDraft]
    exact hother
  | absorption hother =>
    refine ⟨_, ?_, Draft.renders_nested_right ..⟩
    rw [fromOne, ha, absorbedDraft]
    exact hother
  | absorptionBack => exact ⟨_, by simp [fromOne, ha, absorbedDraft], Draft.renders_join ..⟩
  | absorptionBackTurned hne =>
    exact ⟨_, by simp [fromOne, ha, absorbedDraft, hne], Draft.renders_join ..⟩

theorem SchemaOfTwo.renders {f g : Formula} (h : SchemaOfTwo rule f g inference) {a b : Quote}
    (ha : a.formula = f) (hb : b.formula = g) :
    ∃ d, rule.fromTwo a b = some d ∧ d.Renders inference := by
  cases h with
  | syllogism =>
    exact ⟨_, by simp [fromTwo, ha, hb, fromConditionals, chained], Draft.renders_join ..⟩
  | syllogismTurned hne =>
    exact ⟨_, by simp [fromTwo, ha, hb, fromConditionals, chained, hne], Draft.renders_join ..⟩
  | resolutionLeftLeft h =>
    exact ⟨_, by simp [fromTwo, ha, hb, fromDisjunctions, resolved, h], Draft.renders_join ..⟩
  | resolutionLeftRight h1 h =>
    exact ⟨_, by simp [fromTwo, ha, hb, fromDisjunctions, resolved, h1, h], Draft.renders_join ..⟩
  | resolutionRightLeft h1 h2 h =>
    exact ⟨_, by simp [fromTwo, ha, hb, fromDisjunctions, resolved, h1, h2, h],
      Draft.renders_join ..⟩
  | resolutionRightRight h1 h2 h3 h =>
    exact ⟨_, by simp [fromTwo, ha, hb, fromDisjunctions, resolved, h1, h2, h3, h],
      Draft.renders_join ..⟩

theorem SchemaOfOne.accepts {f : Formula} (h : SchemaOfOne choices rule f inference)
    {c : Content} {a : Quote} (hc : c.quote? = some a) (ha : a.formula = f) :
    rule.accepts [c] = .ok true := by
  subst ha
  have hshaped (test : Formula → Bool) : shaped test c = .ok (test a.formula) := shaped_eq hc
  have hmaterial : Rule.implication.accepts [c] = .ok (isMaterial a.formula) :=
    bind_of_eq_ok (Content.of_quote? hc).2.1 _
  generalize a.formula = f at *
  cases h with
  | implication | implicationBack => exact hmaterial
  | exportation | importation => exact (hshaped isNested).trans (by simp [isNested, joinedBy])
  | forward | backward | deniedConjunction | deniedConjuncts | deniedDisjunction | deniedDisjuncts
  | transposition | transpositionBack | absorption | absorptionBack | absorptionBackTurned =>
    exact hshaped _

theorem SchemaOfTwo.accepts {f g : Formula} (h : SchemaOfTwo rule f g inference) {c d : Content}
    {a b : Quote} (hc : c.quote? = some a) (hd : d.quote? = some b) (ha : a.formula = f)
    (hb : b.formula = g) : rule.accepts [c, d] = .ok true := by
  have hf := ha ▸ (Content.of_quote? hc).1
  have hg := hb ▸ (Content.of_quote? hd).1
  cases h with
  | syllogism => simp [Rule.accepts, bothConditional, hf, hg, ok_bind, pure_eq_ok]
  | syllogismTurned => simp [Rule.accepts, bothConditional, hf, hg, ok_bind, pure_eq_ok]
  | resolutionLeftLeft h | resolutionLeftRight _ h | resolutionRightLeft _ _ h
  | resolutionRightRight _ _ _ h => simp [Rule.accepts, clash, hf, hg, ok_bind, pure_eq_ok, h]

/-- Wherever the disjunction stands, it and the conditionals are found. -/
theorem dilemma_parts {a b p q r s : Formula} {before after : List Formula}
    (h : before ++ after = [.binary .implies p q, .binary .implies r s]) :
    conditionals (before ++ .binary .or a b :: after) = [(p, q), (r, s)] ∧
      lastDisjunction? (before ++ .binary .or a b :: after) = some (a, b) ∧
      (before ++ .binary .or a b :: after).length = 3 := by
  rcases before with _ | ⟨f, _ | ⟨g, before⟩⟩
  · obtain rfl : after = _ := h
    exact ⟨rfl, rfl, rfl⟩
  · obtain ⟨rfl, rfl⟩ : f = .binary .implies p q ∧ after = [.binary .implies r s] := by
      simpa using h
    exact ⟨rfl, rfl, rfl⟩
  · obtain ⟨rfl, rfl, rfl, rfl⟩ : f = .binary .implies p q ∧ g = .binary .implies r s ∧
        before = [] ∧ after = [] := by
      simpa using h
    exact ⟨rfl, rfl, rfl⟩

theorem SchemaOfThree.renders {formulas : List Formula} (h : SchemaOfThree formulas inference) :
    isDilemma formulas = true ∧ formulas.length = 3 ∧
      ∃ d, dilemma formulas = some d ∧ d.Renders inference := by
  cases h with
  | @inOrder p q r s before after h =>
    obtain ⟨hconditionals, hdisjunction, hlength⟩ := dilemma_parts (a := p) (b := r) h
    exact ⟨by simp [isDilemma, hconditionals, hdisjunction], hlength, _,
      by simp [dilemma, hconditionals, hdisjunction], Draft.renders_join ..⟩
  | @turned p q r s before after hne h =>
    obtain ⟨hconditionals, hdisjunction, hlength⟩ := dilemma_parts (a := p) (b := r) h
    exact ⟨by simp [isDilemma, hconditionals, hdisjunction], hlength, _,
      by simp [dilemma, hconditionals, hdisjunction, hne], Draft.renders_join ..⟩

/-- Premises that match a schema are accepted, and the draft of the rule writes the conclusion of
the schema. -/
theorem Schema.renders {formulas : List Formula} (h : rule.Schema choices formulas inference)
    {contents : List Content} {quotes : List Quote} (hquoted : Quoted contents quotes)
    (hformulas : quotes.map Quote.formula = formulas) :
    rule.accepts contents = .ok true ∧
      ∃ d, rule.draft choices quotes = some d ∧ d.Renders inference := by
  have hread := hquoted.formulas
  rw [hformulas] at hread
  have hcount : quotes.length = formulas.length := by rw [← hformulas, List.length_map]
  cases h with
  | one h =>
    obtain ⟨a, rfl, ha⟩ := List.map_eq_singleton_iff.mp hformulas
    obtain _ | ⟨hc, _ | _⟩ := hquoted
    exact ⟨h.accepts hc ha, h.renders ha⟩
  | two h =>
    obtain ⟨a, b, rfl⟩ := List.length_eq_two.mp (hcount.trans rfl)
    obtain _ | ⟨hc, _ | ⟨hd, _ | _⟩⟩ := hquoted
    obtain ⟨ha, hb⟩ := by simpa using hformulas
    exact ⟨h.accepts hc hd ha hb, h.renders ha hb⟩
  | three h =>
    obtain ⟨haccepts, hlength, hdraft⟩ := h.renders
    obtain ⟨a, b, c, rfl⟩ := List.length_eq_three.mp (hcount.trans hlength)
    obtain _ | ⟨_, _ | ⟨_, _ | ⟨_, _ | _⟩⟩⟩ := hquoted
    refine ⟨(bind_of_eq_ok hread _).trans (congrArg _ haccepts), ?_⟩
    rwa [draft, if_pos rfl, show [a.formula, b.formula, c.formula] = _ from hformulas]

variable {f : Formula} {d : Draft}

theorem exists_schema_of_directed :
    directed choices.direction f = some d →
      ∃ inference, SchemaOfOne choices biconditionalElimination f inference := by
  generalize hdirection : choices.direction = direction
  fun_cases directed direction f with
  | case1 p q => exact fun _ => ⟨_, .forward hdirection⟩
  | case2 p q => exact fun _ => ⟨_, .backward hdirection⟩
  | case3 => simp

theorem dualized_inv {c c' : Connective} :
    dualized c c' f = some d →
      (∃ p q, f = .not (.binary c p q)) ∨ ∃ p q, f = .binary c' (.not p) (.not q) := by
  fun_cases dualized c c' f with
  | case1 p q => exact fun _ => .inl ⟨p, q, rfl⟩
  | case3 p q => exact fun _ => .inr ⟨p, q, rfl⟩
  | case2 | case4 | case5 => simp

theorem exists_schema_of_transposed :
    transposedDraft f = some d →
      ∃ inference, SchemaOfOne choices transposition f inference := by
  fun_cases transposedDraft f with
  | case1 q p => exact fun _ => ⟨_, .transpositionBack⟩
  | case2 p q hother => exact fun _ => ⟨_, .transposition hother⟩
  | case3 => simp

theorem exists_schema_of_material :
    material f = some d → ∃ inference, SchemaOfOne choices implication f inference := by
  fun_cases material f with
  | case1 p q => exact fun _ => ⟨_, .implication⟩
  | case2 p q => exact fun _ => ⟨_, .implicationBack⟩
  | case3 => simp

theorem exists_schema_of_exported :
    exportedDraft f = some d → ∃ inference, SchemaOfOne choices exportation f inference := by
  fun_cases exportedDraft f with
  | case1 p q r => exact fun _ => ⟨_, .importation⟩
  | case2 p q r hother => exact fun _ => ⟨_, .exportation hother⟩
  | case3 => simp

theorem exists_schema_of_absorbed :
    absorbedDraft f = some d → ∃ inference, SchemaOfOne choices absorption f inference := by
  fun_cases absorbedDraft f with
  | case1 p r => exact fun _ => ⟨_, .absorptionBack⟩
  | case2 p q hne => exact fun _ => ⟨_, .absorptionBackTurned hne⟩
  | case4 p q hother => exact fun _ => ⟨_, .absorption hother⟩
  | case3 | case5 => simp

theorem exists_schemaOfOne (hrule : rule ∈ assembling) {a : Quote}
    (h : rule.fromOne choices a = some d) :
    ∃ inference, SchemaOfOne choices rule a.formula inference := by
  cases rule with
  | biconditionalElimination => exact exists_schema_of_directed h
  | deMorganConjunction =>
    rcases dualized_inv h with ⟨p, q, hf⟩ | ⟨p, q, hf⟩ <;> rw [hf]
    · exact ⟨_, .deniedConjunction⟩
    · exact ⟨_, .deniedConjuncts⟩
  | deMorganDisjunction =>
    rcases dualized_inv h with ⟨p, q, hf⟩ | ⟨p, q, hf⟩ <;> rw [hf]
    · exact ⟨_, .deniedDisjunction⟩
    · exact ⟨_, .deniedDisjuncts⟩
  | transposition => exact exists_schema_of_transposed h
  | implication => exact exists_schema_of_material h
  | exportation => exact exists_schema_of_exported h
  | absorption => exact exists_schema_of_absorbed h
  | hypotheticalSyllogism | resolution | constructiveDilemma => cases h
  | _ => exact absurd hrule (by decide)

theorem exists_schema_of_resolved {p q r s : Formula} :
    resolved p q r s = some d →
      ∃ inference, SchemaOfTwo resolution (.binary .or p q) (.binary .or r s) inference := by
  fun_cases resolved p q r s with
  | case1 h => exact fun _ => ⟨_, .resolutionLeftLeft h⟩
  | case2 h1 h =>
    simp only [Bool.not_eq_true] at h1
    exact fun _ => ⟨_, .resolutionLeftRight h1 h⟩
  | case3 h1 h2 h =>
    simp only [Bool.not_eq_true] at h1 h2
    exact fun _ => ⟨_, .resolutionRightLeft h1 h2 h⟩
  | case4 h1 h2 h3 h =>
    simp only [Bool.not_eq_true] at h1 h2 h3
    exact fun _ => ⟨_, .resolutionRightRight h1 h2 h3 h⟩
  | case5 => simp

theorem exists_schema_of_fromDisjunctions {g : Formula} :
    fromDisjunctions f g = some d → ∃ inference, SchemaOfTwo resolution f g inference := by
  fun_cases fromDisjunctions f g with
  | case1 p q r s => exact exists_schema_of_resolved
  | case2 => simp

theorem exists_schemaOfTwo (hrule : rule ∈ assembling) {c c' : Content} {a b : Quote}
    (hc : c.quote? = some a) (hc' : c'.quote? = some b)
    (haccepts : rule.accepts [c, c'] = .ok true) (h : rule.fromTwo a b = some d) :
    ∃ inference, SchemaOfTwo rule a.formula b.formula inference := by
  cases rule with
  | hypotheticalSyllogism =>
    obtain ⟨p, q, r, s, ha, hb, htest⟩ := conditionals_of_accepted hc hc' haccepts
    rw [ha, hb]
    by_cases hlink : q = r
    · subst hlink
      exact ⟨_, .syllogism⟩
    · obtain rfl : s = p := by simpa [hlink] using htest
      exact ⟨_, .syllogismTurned hlink⟩
  | resolution => exact exists_schema_of_fromDisjunctions h
  | biconditionalElimination | deMorganConjunction | deMorganDisjunction | transposition
  | implication | exportation | absorption | constructiveDilemma => cases h
  | _ => exact absurd hrule (by decide)

theorem length_conditionals_le (formulas : List Formula) :
    (conditionals formulas).length ≤ formulas.length := by
  fun_induction conditionals formulas with
  | case1 => exact Nat.le_refl _
  | case2 p q rest ih => simpa using ih
  | case3 f rest _ ih => exact Nat.le_succ_of_le ih

theorem eq_map_conditionals {formulas : List Formula}
    (h : formulas.length = (conditionals formulas).length) :
    formulas = (conditionals formulas).map (fun c => .binary .implies c.1 c.2) ∧
      lastDisjunction? formulas = none := by
  fun_induction conditionals formulas with
  | case1 => exact ⟨rfl, rfl⟩
  | case2 p q rest ih =>
    obtain ⟨hrest, hnone⟩ := ih (by simpa using h)
    exact ⟨congrArg _ hrest, hnone⟩
  | case3 f rest _ _ =>
    have hle := length_conditionals_le rest
    rw [List.length_cons] at h
    omega

theorem eq_of_lastDisjunction? {f a b : Formula} {rest : List Formula}
    (hnone : lastDisjunction? rest = none) (h : lastDisjunction? (f :: rest) = some (a, b)) :
    f = .binary .or a b := by
  cases f with
  | letter c => cases hnone.symm.trans h
  | not f => cases hnone.symm.trans h
  | binary c p q =>
    cases c with
    | or => simpa [lastDisjunction?, hnone] using h
    | and | implies | iff | xor | nand | nor => cases hnone.symm.trans h

/-- If all formulas but one are conditionals, the disjunction stands among the conditionals. -/
theorem exists_disjunction_among {a b : Formula} {formulas : List Formula}
    (hdisjunction : lastDisjunction? formulas = some (a, b))
    (hlength : formulas.length = (conditionals formulas).length + 1) :
    ∃ before after, formulas = before ++ .binary .or a b :: after ∧
      before ++ after = (conditionals formulas).map fun c => .binary .implies c.1 c.2 := by
  fun_induction conditionals formulas with
  | case1 => cases hdisjunction
  | case2 p q rest ih =>
    obtain ⟨before, after, hrest, hmap⟩ := ih hdisjunction (by simpa using hlength)
    exact ⟨.binary .implies p q :: before, after, congrArg _ hrest, congrArg _ hmap⟩
  | case3 f rest _ _ =>
    obtain ⟨hrest, hnone⟩ := eq_map_conditionals (by simpa using hlength)
    obtain rfl := eq_of_lastDisjunction? hnone hdisjunction
    exact ⟨[], rest, rfl, hrest⟩

theorem exists_schemaOfThree {formulas : List Formula} (h : isDilemma formulas = true)
    (hlength : formulas.length = 3) : ∃ inference, SchemaOfThree formulas inference := by
  unfold isDilemma at h
  split at h
  · next p q r s a b hconditionals hdisjunction =>
    obtain ⟨before, after, rfl, hmap⟩ :=
      exists_disjunction_among hdisjunction (by simp [hconditionals, hlength])
    rw [hconditionals] at hmap
    by_cases hsides : a = p ∧ b = r
    · obtain ⟨rfl, rfl⟩ := hsides
      exact ⟨_, .inOrder hmap⟩
    · obtain ⟨rfl, rfl⟩ : a = r ∧ b = p := by simpa [hsides] using h
      have hne : a ≠ b := fun heq => hsides ⟨heq, heq.symm⟩
      exact ⟨_, .turned hne hmap⟩
  · cases h

theorem exists_schema (hrule : rule ∈ assembling) {contents : List Content} {quotes : List Quote}
    (hquoted : Quoted contents quotes) (haccepts : rule.accepts contents = .ok true)
    (h : rule.draft choices quotes = some d) :
    ∃ inference, rule.Schema choices (quotes.map Quote.formula) inference := by
  have hformulas := hquoted.formulas
  obtain _ | ⟨hc, _ | ⟨hc', _ | ⟨_, _ | _⟩⟩⟩ := hquoted
  · cases h
  · obtain ⟨inference, hone⟩ := exists_schemaOfOne hrule h
    exact ⟨inference, .one hone⟩
  · obtain ⟨inference, htwo⟩ := exists_schemaOfTwo hrule hc hc' haccepts h
    exact ⟨inference, .two htwo⟩
  · rw [draft] at h
    split at h
    · next heq =>
      subst heq
      have hdilemma := bind_of_eq_ok hformulas fun formulas => .ok (isDilemma formulas)
      obtain ⟨inference, hthree⟩ :=
        exists_schemaOfThree (Except.ok.inj (hdilemma.symm.trans haccepts)) rfl
      exact ⟨inference, .three hthree⟩
    · cases h
  · cases h

end

theorem Quoted.map_formula {sentences : List Sentence} {quotes : List Quote}
    (h : Quoted (sentences.map .sentence) quotes) :
    sentences.map Sentence.formula = (quotes.map Quote.formula).map some := by
  induction sentences generalizing quotes with
  | nil =>
    obtain _ | _ := h
    rfl
  | cons t rest ih =>
    obtain _ | ⟨hquote, hrest⟩ := h
    obtain ⟨f, hf, rfl⟩ := Option.map_eq_some_iff.mp hquote
    simp [hf, ih hrest]

/-- An exact draft of premises that are accepted is derived. -/
theorem apply_of_isExact {choices : Choices} {rule : Rule} {contents : List Content}
    {quotes : List Quote} {d : Draft} (hquoted : Quoted contents quotes)
    (haccepts : rule.accepts contents = .ok true) (hdraft : rule.draft choices quotes = some d)
    (hexact : d.IsExact .iff) :
    ∃ s, rule.apply choices contents = .ok (some s) ∧ s.formula = some d.formula := by
  have hconclusion := conclusion_eq_draft hquoted (joins_of_draft hdraft)
  rw [hdraft, Option.map_some] at hconclusion
  obtain ⟨ts, hscan, hder⟩ := Draft.derives_of_isExact hexact
  exact ⟨_, apply_of_read haccepts hconclusion (Sentence.read_of_derives hscan hder), rfl⟩

/-- A rule that assembles its conclusion applies only where one of its schemas does, and the schema
gives the formula of the sentence that is derived if its parts stand exactly. Wherever a schema
matches exactly, the rule does apply. -/
theorem assembled_conclusion_is_textbook {rule : Rule} (hrule : rule ∈ assembling)
    (choices : Choices) {sentences : List Sentence} (hread : ∀ t ∈ sentences, t.IsRead)
    {formulas : List Formula} (hformulas : sentences.map Sentence.formula = formulas.map some) :
    (∀ s, rule.apply choices (sentences.map .sentence) = .ok (some s) →
      ∃ inference, rule.Schema choices formulas inference ∧
        (inference.IsExact → s.formula = some inference.conclusion)) ∧
    ∀ inference, rule.Schema choices formulas inference → inference.IsExact →
      ∃ s, rule.apply choices (sentences.map .sentence) = .ok (some s) ∧
        s.formula = some inference.conclusion := by
  have hcontents : ∀ c ∈ sentences.map Content.sentence, ∃ t, c = .sentence t ∧ t.IsRead := by
    simpa using hread
  obtain ⟨quotes, hquoted, -⟩ := exists_quoted hcontents
  obtain rfl : quotes.map Quote.formula = formulas :=
    List.map_injective_iff.mpr (Option.some_injective _) (hquoted.map_formula.symm.trans hformulas)
  have hexact : ∀ inference, rule.Schema choices (quotes.map Quote.formula) inference →
      inference.IsExact → ∃ s, rule.apply choices (sentences.map .sentence) = .ok (some s) ∧
        s.formula = some inference.conclusion := by
    intro inference hschema hexact
    obtain ⟨haccepts, d, hdraft, hrenders⟩ := hschema.renders hquoted rfl
    rw [← hrenders.formula_eq]
    exact apply_of_isExact hquoted haccepts hdraft (hrenders.isExact hexact)
  refine ⟨fun s happly => ?_, hexact⟩
  obtain ⟨haccepts, text, hconclusion, -⟩ := apply_inv happly
  have hjoins : rule.Joins choices := fun heq => absurd (heq ▸ hrule) (by decide)
  obtain ⟨d, hdraft, -⟩ : ∃ d, rule.draft choices quotes = some d ∧ d.text = text := by
    simpa [conclusion_eq_draft hquoted hjoins] using hconclusion
  obtain ⟨inference, hschema⟩ := exists_schema hrule hquoted haccepts hdraft
  refine ⟨inference, hschema, fun h => ?_⟩
  obtain ⟨t, ht, hformula⟩ := hexact inference hschema h
  obtain rfl : t = s := by simpa [ht] using happly
  exact hformula

/-- Importation from "¬A → (B → (C ↔ D) ∨ E)": all three parts stand bare. -/
theorem importation_of_compound_parts :
    let p : Formula := .not (.letter 'A')
    let q : Formula := .letter 'B'
    let r : Formula := .binary .or (.binary .iff (.letter 'C') (.letter 'D')) (.letter 'E')
    let t : Sentence := ⟨"¬A → (B → (C ↔ D) ∨ E)".toList,
      some (.binary .implies p (.binary .implies q r)), ['A', 'B', 'C', 'D', 'E']⟩
    exportation ∈ assembling ∧ Sentence.read t.source = .ok t ∧
      ∃ s, exportation.apply {} [.sentence t] = .ok (some s) ∧
        s.formula = some (.binary .implies (.binary .and p q) r) := by
  intro p q r t
  have hrule : exportation ∈ assembling := by decide
  have hread : Sentence.read t.source = .ok t := by
    unfold t p q r
    cbv
  have hback : p.ReadsBack ∧ q.ReadsBack ∧ r.ReadsBack := by
    simp only [Formula.readsBack_iff, Formula.Capital, ← List.all_eq_true]
    decide
  have hsentences : ∀ u ∈ [t], u.IsRead := by simpa using ⟨_, hread⟩
  have hformulas : [t].map Sentence.formula =
      [Formula.binary .implies p (.binary .implies q r)].map some := rfl
  refine ⟨hrule, hread, ?_⟩
  apply (assembled_conclusion_is_textbook hrule {} hsentences hformulas).2 _ (.one .importation)
  simpa [Inference.IsExact, Placement.IsExact, hback] using ⟨by decide, by decide, by decide⟩

end Rule

end Sentential
