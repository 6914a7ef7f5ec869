import Sentential.Proofs.Drafts

/-! What the rules derive, as drafts. `Rule.draft` says for each rule which formula it is meant to
derive from the formulas of its premises, and which parts it leaves bare. The text that a rule puts
together is the text of its draft, and the formula of the draft is true whenever the premises that
the rule accepts are. -/

namespace Sentential

namespace Rule

open Draft (part wrapped)

/-- The consequent of the second formula, if the first is its antecedent. -/
def affirmed (f : Formula) : Formula → Option Draft
  | .binary .implies p q => if f = p then some (part q) else none
  | _ => none

/-- The negated antecedent of the first formula, if the second denies its consequent. -/
def denied : Formula → Formula → Option Draft
  | .binary .implies p q, .not r => if r = q then some (.negated p) else none
  | _, _ => none

/-- The side of the first formula that the second does not deny. -/
def remaining : Formula → Formula → Option Draft
  | .binary .or p q, .not r =>
    if r = p then some (part q) else if r = q then some (part p) else none
  | _, _ => none

/-- What two conditionals give. -/
def fromConditionals (derive : Formula → Formula → Formula → Formula → Draft) :
    Formula → Formula → Option Draft
  | .binary .implies p q, .binary .implies r s => some (derive p q r s)
  | _, _ => none

/-- The two conditionals, one after the other. -/
def chained (p q r s : Formula) : Draft :=
  if q = r then .join .implies (part p) (part s) else .join .implies (part r) (part q)

/-- A premise as a side of a conjunction. -/
def conjoined (q : Quote) : Draft :=
  wrapped (joinedBy .implies q.formula || joinedBy .iff q.formula || joinedBy .or q.formula ||
    joinedBy .xor q.formula) (.quote q)

/-- The sentence that addition joins, if it is one. -/
def addedQuote? : Value → Option Quote
  | .text s =>
    match Sentence.read s.toList with
    | .ok { formula := some f, .. } => some ⟨s.toList, f⟩
    | _ => none
  | _ => none

/-- A sentence as a side of a disjunction. -/
def disjoined (q : Quote) : Draft :=
  wrapped (isLoose q.formula) (.quote q)

/-- What is left of two disjunctions after the first pair of complementary sides. -/
def resolved (p q r s : Formula) : Option Draft :=
  if complementary p r then some (.join .or (part q) (part s))
  else if complementary p s then some (.join .or (part q) (part r))
  else if complementary q r then some (.join .or (part p) (part s))
  else if complementary q s then some (.join .or (part p) (part r))
  else none

/-- What two disjunctions give. -/
def fromDisjunctions : Formula → Formula → Option Draft
  | .binary .or p q, .binary .or r s => resolved p q r s
  | _, _ => none

/-- The kept side of a conjunction. -/
def kept (side : Side) : Formula → Option Draft
  | .binary .and p q =>
    match side with
    | .left => some (part p)
    | .right => some (part q)
  | _ => none

/-- One direction of a biconditional. -/
def directed (direction : Direction) : Formula → Option Draft
  | .binary .iff p q =>
    match direction with
    | .forward => some (.join .implies (part p) (part q))
    | .backward => some (.join .implies (part q) (part p))
  | _ => none

/-- The premise without its double negation, or with one. -/
def doublyNegated (mode : NegationMode) (q : Quote) : Option Draft :=
  match mode with
  | .eliminate =>
    match q.formula with
    | .not (.not p) => some (part p)
    | _ => none
  | .introduce => some (.not (.not (wrapped (q.formula.head != .letter) (.quote q))))

/-- De Morgan's law for the connective `c` with the dual connective `d`, in both directions. -/
def dualized (c d : Connective) : Formula → Option Draft
  | .not (.binary op p q) => if op = c then some (.join d (.negated p) (.negated q)) else none
  | .binary op (.not p) (.not q) =>
    if op = d then some (.not (.parens (.join c (part p) (part q)))) else none
  | _ => none

/-- The transposed conditional; from two negated sides the negations go. -/
def transposedDraft : Formula → Option Draft
  | .binary .implies (.not q) (.not p) => some (.join .implies (part p) (part q))
  | .binary .implies p q => some (.join .implies (.negated q) (.negated p))
  | _ => none

/-- A conditional as a disjunction, or such a disjunction as a conditional. -/
def material : Formula → Option Draft
  | .binary .implies p q => some (.join .or (.negated p) (part q))
  | .binary .or (.not p) q => some (.join .implies (part p) (part q))
  | _ => none

/-- A nested conditional with its conditions joined, or joined conditions taken apart. -/
def exportedDraft : Formula → Option Draft
  | .binary .implies p (.binary .implies q r) =>
    some (.join .implies (.parens (.join .and (part p) (part q))) (part r))
  | .binary .implies (.binary .and p q) r =>
    some (.join .implies (part p) (.parens (.join .implies (part q) (part r))))
  | _ => none

/-- A conditional with its antecedent added to the consequent, or taken out of it again. -/
def absorbedDraft : Formula → Option Draft
  | .binary .implies p (.binary .and q r) =>
    if q = p then some (.join .implies (part p) (part r))
    else if r = p then some (.join .implies (part p) (part q))
    else none
  | .binary .implies p q =>
    some (.join .implies (part p) (.parens (.join .and (part p) (part q))))
  | _ => none

/-- The consequents of a dilemma, in the order of the disjunction. -/
def dilemma (formulas : List Formula) : Option Draft :=
  match conditionals formulas, lastDisjunction? formulas with
  | [(p, q), (r, s)], some (a, b) =>
    if a = p && b = r then some (.join .or (part q) (part s))
    else some (.join .or (part s) (part q))
  | _, _ => none

/-- What the rule puts together from one premise. Addition of what is no sentence gives nothing. -/
def fromOne (choices : Choices) (a : Quote) : Rule → Option Draft
  | conjunctionElimination | simplification => kept choices.side a.formula
  | addition => (addedQuote? choices.added).map fun b => .join .or (disjoined a) (disjoined b)
  | biconditionalElimination => directed choices.direction a.formula
  | doubleNegation => doublyNegated choices.mode a
  | deMorganConjunction => dualized .and .or a.formula
  | deMorganDisjunction => dualized .or .and a.formula
  | transposition => transposedDraft a.formula
  | implication => material a.formula
  | exportation => exportedDraft a.formula
  | absorption => absorbedDraft a.formula
  | _ => none

/-- What the rule puts together from two premises. -/
def fromTwo (a b : Quote) : Rule → Option Draft
  | modusPonens => (affirmed a.formula b.formula).or (affirmed b.formula a.formula)
  | modusTollens => (denied a.formula b.formula).or (denied b.formula a.formula)
  | hypotheticalSyllogism => fromConditionals chained a.formula b.formula
  | disjunctiveSyllogism => (remaining a.formula b.formula).or (remaining b.formula a.formula)
  | conjunctionIntroduction => some (.join .and (conjoined a) (conjoined b))
  | biconditionalIntroduction =>
    fromConditionals (fun p q _ _ => .join .iff (part p) (part q)) a.formula b.formula
  | resolution => fromDisjunctions a.formula b.formula
  | _ => none

/-- What the rule puts together from premises that it accepts. -/
def draft (choices : Choices) (rule : Rule) : List Quote → Option Draft
  | [a] => rule.fromOne choices a
  | [a, b] => rule.fromTwo a b
  | [a, b, c] =>
    if rule = constructiveDilemma then dilemma [a.formula, b.formula, c.formula] else none
  | _ => none

/-- The contents are sentences with formulas, which are quoted. -/
def Quoted (contents : List Content) (quotes : List Quote) : Prop :=
  List.Forall₂ (fun c q => c.quote? = some q) contents quotes

end Rule

/-- What a content gives that is quoted. -/
theorem Content.of_quote? {c : Content} {q : Quote} (h : c.quote? = some q) :
    c.formula? = .ok (some q.formula) ∧ c.formula = .ok q.formula ∧ c.text = q.text := by
  cases c with
  | other v => cases h
  | sentence s =>
    obtain ⟨f, hf, rfl⟩ := Option.map_eq_some_iff.mp h
    exact ⟨congrArg _ hf, by simp [Content.formula, hf], rfl⟩

theorem ok_bind {ε α β : Type} (a : α) (f : α → Except ε β) : (Except.ok a >>= f) = f a := rfl

theorem bind_of_eq_ok {ε α β : Type} {x : Except ε α} {a : α} (h : x = .ok a)
    (f : α → Except ε β) : (x >>= f) = f a := by
  rw [h, ok_bind]

theorem pure_eq_ok {ε α : Type} (a : α) : (pure a : Except ε α) = .ok a := rfl

namespace Rule

attribute [local grind =] Draft.text Draft.text_negated

section

variable {c d : Content} {a b : Quote}

theorem firstOrder_eq {derive : Content → Content → Except Failure (Option (List Char))}
    {x y : Option Draft} (hx : derive c d = .ok (x.map Draft.text))
    (hy : derive d c = .ok (y.map Draft.text)) :
    firstOrder derive c d = .ok ((x.or y).map Draft.text) := by
  cases x with
  | none => simpa [firstOrder, hx, ok_bind] using hy
  | some x => simp [firstOrder, hx, ok_bind, pure_eq_ok]

theorem consequentText_eq (hc : c.quote? = some a) (hd : d.quote? = some b) :
    consequentText c d = .ok ((affirmed a.formula b.formula).map Draft.text) := by
  simp only [consequentText, (Content.of_quote? hc).2.1, (Content.of_quote? hd).1, ok_bind,
    pure_eq_ok]
  generalize a.formula = f, b.formula = g
  fun_cases affirmed f g with
  | case1 q => simp
  | case2 p q hne => simp [hne]
  | case3 g hother => grind

theorem deniedText_eq (hc : c.quote? = some a) (hd : d.quote? = some b) :
    deniedText c d = .ok ((denied a.formula b.formula).map Draft.text) := by
  simp only [deniedText, (Content.of_quote? hc).1, (Content.of_quote? hd).1, ok_bind, pure_eq_ok]
  generalize a.formula = f, b.formula = g
  fun_cases denied f g with
  | case1 p q => simp
  | case2 p q r hne => simp [hne]
  | case3 f g hother => grind

theorem remainingText_eq (hc : c.quote? = some a) (hd : d.quote? = some b) :
    remainingText c d = .ok ((remaining a.formula b.formula).map Draft.text) := by
  simp only [remainingText, (Content.of_quote? hc).1, (Content.of_quote? hd).1, ok_bind, pure_eq_ok]
  generalize a.formula = f, b.formula = g
  fun_cases remaining f g with
  | case1 q r => simp
  | case2 p q hne => simp [hne]
  | case3 p q r hp hq => simp [hp, hq]
  | case4 f g hother => grind

theorem conditionalText_eq {text : Formula → Formula → Formula → Formula → List Char}
    {derive : Formula → Formula → Formula → Formula → Draft}
    (htext : ∀ p q r s, text p q r s = (derive p q r s).text)
    (hc : c.quote? = some a) (hd : d.quote? = some b) :
    conditionalText text c d =
      .ok ((fromConditionals derive a.formula b.formula).map Draft.text) := by
  simp only [conditionalText, (Content.of_quote? hc).1, (Content.of_quote? hd).1, ok_bind,
    pure_eq_ok]
  generalize a.formula = f, b.formula = g
  fun_cases fromConditionals derive f g with
  | case1 p q r s => simp [htext]
  | case2 f g hother => grind

theorem fromFormula_eq {text : Formula → Option (List Char)} {x : Option Draft}
    (hc : c.quote? = some a) (htext : text a.formula = x.map Draft.text) :
    fromFormula text c = .ok (x.map Draft.text) := by
  simp only [fromFormula, (Content.of_quote? hc).1, ok_bind, pure_eq_ok, htext]

end

theorem keptSide_eq (side : Side) (f : Formula) :
    keptSide side f = (kept side f).map Draft.text := by
  cases f with
  | letter a => rfl
  | not f => rfl
  | binary c p q => cases c <;> cases side <;> rfl

theorem oneDirection_eq (direction : Direction) (f : Formula) :
    oneDirection direction f = (directed direction f).map Draft.text := by
  cases f with
  | letter a => rfl
  | not f => rfl
  | binary c p q => cases c <;> cases direction <;> rfl

theorem deMorganText_eq (c d : Connective) (f : Formula) :
    deMorganText c d f = (dualized c d f).map Draft.text := by
  fun_cases dualized c d f <;> grind [deMorganText]

theorem transposed_eq (f : Formula) : transposed f = (transposedDraft f).map Draft.text := by
  fun_cases transposedDraft f <;> grind [transposed]

theorem materialText_eq (f : Formula) : materialText f = (material f).map Draft.text := by
  fun_cases material f <;> grind [materialText]

theorem exported_eq (f : Formula) : exported f = (exportedDraft f).map Draft.text := by
  fun_cases exportedDraft f <;> grind [exported]

theorem absorbed_eq (f : Formula) : absorbed f = (absorbedDraft f).map Draft.text := by
  fun_cases absorbedDraft f <;> grind [absorbed]

theorem resolvent_eq (p q r s : Formula) :
    resolvent p q r s = (resolved p q r s).map Draft.text := by
  simp only [resolvent, resolved, apply_ite (Option.map Draft.text), Option.map_some,
    Option.map_none, Draft.text]

theorem dilemmaText_eq (formulas : List Formula) :
    dilemmaText formulas = (dilemma formulas).map Draft.text := by
  fun_cases dilemma formulas <;> grind [dilemmaText]

theorem conjunct_eq {c : Content} {a : Quote} (hc : c.quote? = some a) :
    conjunct c = .ok (conjoined a).text := by
  obtain ⟨-, hformula, htext⟩ := Content.of_quote? hc
  simp only [conjunct, hformula, htext, conjoined, Draft.text_wrapped, Draft.text]
  rfl

theorem addedText_eq {value : Value} {b : Quote} (h : addedQuote? value = some b) :
    addedText value = (disjoined b).text := by
  unfold addedQuote? at h
  split at h
  · next s =>
    split at h
    · next f _ hread =>
      cases h
      simp [addedText, hread, disjoined]
    · cases h
  · cases h

theorem doubleNegationText_eq {mode : NegationMode} {c : Content} {a : Quote}
    (hc : c.quote? = some a) :
    doubleNegationText mode c = .ok ((doublyNegated mode a).map Draft.text) := by
  obtain ⟨hformula?, hformula, htext⟩ := Content.of_quote? hc
  simp only [doubleNegationText, hformula?, hformula, htext, ok_bind, pure_eq_ok]
  fun_cases doublyNegated mode a with
  | case1 p hp => simp [hp]
  | case2 hother => grind
  | case3 => simp

theorem disjunctionText_eq (choices : Choices) {c d : Content} {a b : Quote}
    (hc : c.quote? = some a) (hd : d.quote? = some b) :
    resolution.conclusion choices [c, d] =
      .ok ((fromDisjunctions a.formula b.formula).map Draft.text) := by
  simp only [conclusion, (Content.of_quote? hc).1, (Content.of_quote? hd).1, ok_bind, pure_eq_ok]
  generalize a.formula = f, b.formula = g
  fun_cases fromDisjunctions f g with
  | case1 p q r s => simp [resolvent_eq]
  | case2 f g hother => grind

/-- What addition joins is a sentence, if the rule is addition. -/
def Joins (choices : Choices) (rule : Rule) : Prop :=
  rule = addition → (addedQuote? choices.added).isSome = true

theorem conclusion_eq_fromOne {choices : Choices} {rule : Rule} {c : Content} {a : Quote}
    (hc : c.quote? = some a) (hjoins : rule.Joins choices) :
    rule.conclusion choices [c] = .ok ((rule.fromOne choices a).map Draft.text) := by
  cases rule with
  | conjunctionElimination => exact fromFormula_eq hc (keptSide_eq _ _)
  | simplification => exact fromFormula_eq hc (keptSide_eq _ _)
  | addition =>
    obtain ⟨-, hformula, htext⟩ := Content.of_quote? hc
    obtain ⟨b, hb⟩ := Option.isSome_iff_exists.mp (hjoins rfl)
    have hunfold : addition.conclusion choices [c] = c.formula >>= fun p =>
        .ok (some (Formula.joined (Formula.wrap (isLoose p) c.text) .or
          (addedText choices.added))) := rfl
    rw [hunfold, hformula, ok_bind, htext, addedText_eq hb]
    simp [fromOne, hb, disjoined]
  | biconditionalElimination => exact fromFormula_eq hc (oneDirection_eq _ _)
  | doubleNegation => exact doubleNegationText_eq hc
  | deMorganConjunction => exact fromFormula_eq hc (deMorganText_eq _ _ _)
  | deMorganDisjunction => exact fromFormula_eq hc (deMorganText_eq _ _ _)
  | transposition => exact fromFormula_eq hc (transposed_eq _)
  | implication => exact fromFormula_eq hc (materialText_eq _)
  | exportation => exact fromFormula_eq hc (exported_eq _)
  | absorption => exact fromFormula_eq hc (absorbed_eq _)
  | modusPonens | modusTollens | hypotheticalSyllogism | disjunctiveSyllogism
  | conjunctionIntroduction | biconditionalIntroduction | resolution | constructiveDilemma => rfl

theorem conclusion_eq_fromTwo {choices : Choices} {rule : Rule} {c d : Content} {a b : Quote}
    (hc : c.quote? = some a) (hd : d.quote? = some b) :
    rule.conclusion choices [c, d] = .ok ((rule.fromTwo a b).map Draft.text) := by
  cases rule with
  | modusPonens => exact firstOrder_eq (consequentText_eq hc hd) (consequentText_eq hd hc)
  | modusTollens => exact firstOrder_eq (deniedText_eq hc hd) (deniedText_eq hd hc)
  | hypotheticalSyllogism =>
    exact conditionalText_eq (fun p q r s => by grind [chained]) hc hd
  | disjunctiveSyllogism => exact firstOrder_eq (remainingText_eq hc hd) (remainingText_eq hd hc)
  | conjunctionIntroduction =>
    have hunfold : conjunctionIntroduction.conclusion choices [c, d] =
        conjunct c >>= fun left => conjunct d >>= fun right =>
          .ok (some (Formula.joined left .and right)) := rfl
    rw [hunfold, conjunct_eq hc, ok_bind, conjunct_eq hd]
    rfl
  | biconditionalIntroduction => exact conditionalText_eq (fun _ _ _ _ => rfl) hc hd
  | resolution => exact disjunctionText_eq choices hc hd
  | conjunctionElimination | addition | simplification | biconditionalElimination
  | doubleNegation | deMorganConjunction | deMorganDisjunction | transposition | implication
  | exportation | absorption | constructiveDilemma => rfl

theorem Quoted.formulas {contents : List Content} {quotes : List Quote}
    (h : Quoted contents quotes) :
    contents.mapM Content.formula = .ok (quotes.map Quote.formula) := by
  induction h with
  | nil => rfl
  | cons ha _ ih =>
    rw [List.mapM_cons, (Content.of_quote? ha).2.1, ih]
    rfl

theorem Quoted.exists_content {contents : List Content} {quotes : List Quote}
    (h : Quoted contents quotes) {q : Quote} (hq : q ∈ quotes) :
    ∃ c ∈ contents, c.quote? = some q := by
  induction h with
  | nil => cases hq
  | @cons c r contents quotes hc _ ih =>
    obtain rfl | hq := List.mem_cons.mp hq
    · exact ⟨c, by simp, hc⟩
    · obtain ⟨c', hmem, hc'⟩ := ih hq
      exact ⟨c', by simp [hmem], hc'⟩

/-- The text that a rule puts together is the text of its draft. -/
theorem conclusion_eq_draft {choices : Choices} {rule : Rule} {contents : List Content}
    {quotes : List Quote} (hquoted : Quoted contents quotes) (hjoins : rule.Joins choices) :
    rule.conclusion choices contents = .ok ((rule.draft choices quotes).map Draft.text) := by
  have hformulas := hquoted.formulas
  obtain _ | ⟨hc, _ | ⟨hd, _ | ⟨he, _ | _⟩⟩⟩ := hquoted
  · cases rule <;> rfl
  · exact conclusion_eq_fromOne hc hjoins
  · exact conclusion_eq_fromTwo hc hd
  · cases rule with
    | constructiveDilemma =>
      rw [draft, if_pos rfl, ← dilemmaText_eq]
      exact bind_of_eq_ok hformulas _
    | _ => rfl
  · cases rule <;> rfl

theorem joins_of_draft {choices : Choices} {rule : Rule} {quotes : List Quote} {d : Draft}
    (h : rule.draft choices quotes = some d) : rule.Joins choices := by
  rintro rfl
  match quotes with
  | [] | [_, _] | _ :: _ :: _ :: _ :: _ => cases h
  | [_, _, _] => simp [draft] at h
  | [a] =>
    obtain ⟨b, hb, -⟩ := Option.map_eq_some_iff.mp h
    exact Option.isSome_iff_exists.mpr ⟨b, hb⟩

section

variable {c d : Content} {a b : Quote}

theorem exists_inEitherOrder {test : Content → Content → Except Failure Bool}
    (hforth : ∃ r, test c d = .ok r) (hback : ∃ r, test d c = .ok r) :
    ∃ r, inEitherOrder test c d = .ok r := by
  obtain ⟨r, hr⟩ := hforth
  obtain ⟨r', hr'⟩ := hback
  cases r <;> simp [inEitherOrder, hr, hr', ok_bind, pure_eq_ok]

theorem exists_affirms (hc : c.quote? = some a) (hd : d.quote? = some b) :
    ∃ r, affirms c d = .ok r := by
  simp only [affirms, (Content.of_quote? hc).2.1, (Content.of_quote? hd).1, ok_bind]
  split <;> exact ⟨_, rfl⟩

theorem exists_denies (hc : c.quote? = some a) (hd : d.quote? = some b) :
    ∃ r, denies c d = .ok r := by
  simp only [denies, (Content.of_quote? hc).1, (Content.of_quote? hd).1, ok_bind]
  repeat' split
  all_goals exact ⟨_, rfl⟩

theorem exists_excludes (hc : c.quote? = some a) (hd : d.quote? = some b) :
    ∃ r, excludes c d = .ok r := by
  simp only [excludes, (Content.of_quote? hc).1, (Content.of_quote? hd).1, ok_bind]
  repeat' split
  all_goals exact ⟨_, rfl⟩

theorem exists_bothConditional {test : Formula → Formula → Formula → Formula → Bool}
    (hc : c.quote? = some a) (hd : d.quote? = some b) : ∃ r, bothConditional test c d = .ok r := by
  simp only [bothConditional, (Content.of_quote? hc).1, (Content.of_quote? hd).1, ok_bind]
  repeat' split
  all_goals exact ⟨_, rfl⟩

theorem exists_clash (hc : c.quote? = some a) (hd : d.quote? = some b) :
    ∃ r, clash c d = .ok r := by
  simp only [clash, (Content.of_quote? hc).1, (Content.of_quote? hd).1, ok_bind]
  repeat' split
  all_goals exact ⟨_, rfl⟩

theorem shaped_eq {test : Formula → Bool} (hc : c.quote? = some a) :
    shaped test c = .ok (test a.formula) := by
  simp only [shaped, (Content.of_quote? hc).1, ok_bind, pure_eq_ok]

end

/-- Sentences that have formulas can be tested for every rule. -/
theorem exists_accepts {rule : Rule} {contents : List Content} {quotes : List Quote}
    (hquoted : Quoted contents quotes) : ∃ r, rule.accepts contents = .ok r := by
  have hformulas := hquoted.formulas
  obtain _ | ⟨hc, _ | ⟨hd, _ | ⟨he, _ | _⟩⟩⟩ := hquoted
  · cases rule <;> exact ⟨_, rfl⟩
  · cases rule with
    | conjunctionElimination | simplification | biconditionalElimination | deMorganConjunction
    | deMorganDisjunction | transposition | exportation | absorption => exact ⟨_, shaped_eq hc⟩
    | doubleNegation => exact ⟨_, bind_of_eq_ok (Content.of_quote? hc).1 _⟩
    | implication => exact ⟨_, bind_of_eq_ok (Content.of_quote? hc).2.1 _⟩
    | _ => exact ⟨_, rfl⟩
  · cases rule with
    | modusPonens => exact exists_inEitherOrder (exists_affirms hc hd) (exists_affirms hd hc)
    | modusTollens => exact exists_inEitherOrder (exists_denies hc hd) (exists_denies hd hc)
    | disjunctiveSyllogism =>
      exact exists_inEitherOrder (exists_excludes hc hd) (exists_excludes hd hc)
    | hypotheticalSyllogism | biconditionalIntroduction => exact exists_bothConditional hc hd
    | resolution => exact exists_clash hc hd
    | _ => exact ⟨_, rfl⟩
  · cases rule with
    | constructiveDilemma => exact ⟨_, bind_of_eq_ok hformulas _⟩
    | _ => exact ⟨_, rfl⟩
  · cases rule <;> exact ⟨_, rfl⟩

/-- The draft follows from the formulas: it is legible if their letters are capitals, and it is true
whenever they are. -/
def Follows (formulas : List Formula) (d : Draft) : Prop :=
  ((∀ f ∈ formulas, f.Capital) → d.Legible) ∧
    ∀ v, (∀ f ∈ formulas, f.eval v = true) → d.formula.eval v = true

theorem follows_one {f : Formula} {d : Draft} :
    Follows [f] d ↔ (f.Capital → d.Legible) ∧ ∀ v, f.eval v = true → d.formula.eval v = true := by
  simp [Follows]

theorem follows_two {f g : Formula} {d : Draft} :
    Follows [f, g] d ↔ (f.Capital → g.Capital → d.Legible) ∧
      ∀ v, f.eval v = true → g.eval v = true → d.formula.eval v = true := by
  simp [Follows]

theorem follows_affirmed {f g : Formula} {d : Draft} :
    affirmed f g = some d → Follows [f, g] d := by
  fun_cases affirmed f g with
  | case1 q =>
    rintro ⟨⟩
    refine follows_two.mpr ⟨by simp, fun v hf hcond => ?_⟩
    simpa [hf] using hcond
  | case2 | case3 => simp

theorem follows_denied {f g : Formula} {d : Draft} :
    denied f g = some d → Follows [f, g] d := by
  fun_cases denied f g with
  | case1 p q =>
    rintro ⟨⟩
    refine follows_two.mpr ⟨by simp +contextual, fun v hcond hnot => ?_⟩
    have hq : q.eval v = false := by simpa using hnot
    simpa [hq] using hcond
  | case2 | case3 => simp

theorem follows_remaining {f g : Formula} {d : Draft} :
    remaining f g = some d → Follows [f, g] d := by
  fun_cases remaining f g with
  | case1 q r =>
    rintro ⟨⟩
    refine follows_two.mpr ⟨by simp +contextual, fun v hor hnot => ?_⟩
    have hr : r.eval v = false := by simpa using hnot
    simpa [hr] using hor
  | case2 p q _ =>
    rintro ⟨⟩
    refine follows_two.mpr ⟨by simp +contextual, fun v hor hnot => ?_⟩
    have hq : q.eval v = false := by simpa using hnot
    simpa [hq] using hor
  | case3 | case4 => simp

theorem follows_kept {side : Side} {f : Formula} {d : Draft} :
    kept side f = some d → Follows [f] d := by
  fun_cases kept side f with
  | case1 p q =>
    rintro ⟨⟩
    exact follows_one.mpr ⟨by simp +contextual, by simp +contextual⟩
  | case2 p q =>
    rintro ⟨⟩
    exact follows_one.mpr ⟨by simp, by simp⟩
  | case3 => simp

theorem follows_directed {direction : Direction} {f : Formula} {d : Draft} :
    directed direction f = some d → Follows [f] d := by
  fun_cases directed direction f with
  | case1 p q =>
    rintro ⟨⟩
    refine follows_one.mpr ⟨by simp +contextual, fun v h => ?_⟩
    have hpq : p.eval v = q.eval v := by simpa using h
    simp [hpq]
  | case2 p q =>
    rintro ⟨⟩
    refine follows_one.mpr ⟨by simp +contextual, fun v h => ?_⟩
    have hpq : p.eval v = q.eval v := by simpa using h
    simp [hpq]
  | case3 => simp

theorem follows_transposed {f : Formula} {d : Draft} :
    transposedDraft f = some d → Follows [f] d := by
  fun_cases transposedDraft f with
  | case1 q p =>
    rintro ⟨⟩
    refine follows_one.mpr ⟨by simp +contextual, fun v h => ?_⟩
    simpa [or_comm] using h
  | case2 p q =>
    rintro ⟨⟩
    refine follows_one.mpr ⟨by simp +contextual, fun v h => ?_⟩
    simpa [or_comm] using h
  | case3 => simp

theorem follows_material {f : Formula} {d : Draft} :
    material f = some d → Follows [f] d := by
  fun_cases material f with
  | case1 p q =>
    rintro ⟨⟩
    exact follows_one.mpr ⟨by simp +contextual, fun v h => by simpa using h⟩
  | case2 p q =>
    rintro ⟨⟩
    exact follows_one.mpr ⟨by simp +contextual, fun v h => by simpa using h⟩
  | case3 => simp

theorem follows_exported {f : Formula} {d : Draft} :
    exportedDraft f = some d → Follows [f] d := by
  fun_cases exportedDraft f with
  | case1 p q r =>
    rintro ⟨⟩
    refine follows_one.mpr ⟨by simp +contextual, fun v h => ?_⟩
    simpa [or_assoc] using h
  | case2 p q r =>
    rintro ⟨⟩
    refine follows_one.mpr ⟨by simp +contextual, fun v h => ?_⟩
    simpa [or_assoc] using h
  | case3 => simp

theorem follows_absorbed {f : Formula} {d : Draft} :
    absorbedDraft f = some d → Follows [f] d := by
  fun_cases absorbedDraft f with
  | case1 p r =>
    rintro ⟨⟩
    refine follows_one.mpr ⟨by simp +contextual, fun v h => ?_⟩
    cases hp : p.eval v <;> simp_all
  | case2 p q _ =>
    rintro ⟨⟩
    refine follows_one.mpr ⟨by simp +contextual, fun v h => ?_⟩
    cases hq : q.eval v <;> simp_all
  | case4 p q _ =>
    rintro ⟨⟩
    refine follows_one.mpr ⟨by simp +contextual, fun v h => ?_⟩
    cases hp : p.eval v <;> simp_all
  | case3 | case5 => simp

theorem follows_dualized {c d : Connective} (h : c = .and ∧ d = .or ∨ c = .or ∧ d = .and)
    {f : Formula} {e : Draft} : dualized c d f = some e → Follows [f] e := by
  fun_cases dualized c d f with
  | case1 p q =>
    rintro ⟨⟩
    refine follows_one.mpr ⟨by simp +contextual, fun v hnot => ?_⟩
    obtain ⟨rfl, rfl⟩ | ⟨rfl, rfl⟩ := h <;> simpa using hnot
  | case3 p q =>
    rintro ⟨⟩
    refine follows_one.mpr ⟨by simp +contextual, fun v hnots => ?_⟩
    obtain ⟨rfl, rfl⟩ | ⟨rfl, rfl⟩ := h <;> simpa using hnots
  | case2 | case4 | case5 => simp

/-- If two sides are complementary, one of the other two sides is true. -/
theorem eval_or_of_complementary {p q r s : Formula} (h : complementary p r = true)
    {v : Char → Bool} (hpq : p.eval v = true ∨ q.eval v = true)
    (hrs : r.eval v = true ∨ s.eval v = true) : q.eval v = true ∨ s.eval v = true := by
  have hpr : p = .not r ∨ r = .not p := by simpa [complementary] using h
  obtain rfl | rfl := hpr
  · cases hr : r.eval v <;> simp_all
  · cases hp : p.eval v <;> simp_all

theorem follows_resolved {p q r s : Formula} {d : Draft} :
    resolved p q r s = some d → Follows [.binary .or p q, .binary .or r s] d := by
  fun_cases resolved p q r s with
  | case1 h =>
    rintro ⟨⟩
    refine follows_two.mpr ⟨by simp +contextual, fun v hpq hrs => ?_⟩
    simpa using eval_or_of_complementary h (by simpa using hpq) (by simpa using hrs)
  | case2 _ h =>
    rintro ⟨⟩
    refine follows_two.mpr ⟨by simp +contextual, fun v hpq hrs => ?_⟩
    simpa using eval_or_of_complementary h (by simpa using hpq) (by simpa [or_comm] using hrs)
  | case3 _ _ h =>
    rintro ⟨⟩
    refine follows_two.mpr ⟨by simp +contextual, fun v hpq hrs => ?_⟩
    simpa using eval_or_of_complementary h (by simpa [or_comm] using hpq) (by simpa using hrs)
  | case4 _ _ _ h =>
    rintro ⟨⟩
    refine follows_two.mpr ⟨by simp +contextual, fun v hpq hrs => ?_⟩
    simpa using
      eval_or_of_complementary h (by simpa [or_comm] using hpq) (by simpa [or_comm] using hrs)
  | case5 => simp

theorem follows_fromDisjunctions {f g : Formula} {d : Draft} :
    fromDisjunctions f g = some d → Follows [f, g] d := by
  fun_cases fromDisjunctions f g with
  | case1 p q r s => exact follows_resolved
  | case2 => simp

theorem follows_chained {p q r s : Formula} (h : q = r ∨ s = p) :
    Follows [.binary .implies p q, .binary .implies r s] (chained p q r s) := by
  unfold chained
  split
  · next hqr =>
    subst hqr
    refine follows_two.mpr ⟨by simp +contextual, fun v hpq hqs => ?_⟩
    cases hq : q.eval v <;> simp_all
  · next hqr =>
    obtain rfl : s = p := h.resolve_left hqr
    refine follows_two.mpr ⟨by simp +contextual, fun v hpq hrp => ?_⟩
    cases hs : s.eval v <;> simp_all

theorem follows_biconditional {p q r s : Formula} (h : p = s ∧ q = r) :
    Follows [.binary .implies p q, .binary .implies r s] (.join .iff (.part p) (.part q)) := by
  obtain ⟨rfl, rfl⟩ := h
  refine follows_two.mpr ⟨by simp +contextual, fun v hpq hqp => ?_⟩
  cases hp : p.eval v <;> simp_all

theorem mem_of_mem_conditionals {p q : Formula} {formulas : List Formula}
    (h : (p, q) ∈ conditionals formulas) : .binary .implies p q ∈ formulas := by
  fun_induction conditionals formulas with
  | case1 => cases h
  | case2 r s rest ih => grind
  | case3 f rest _ ih => exact List.mem_cons_of_mem f (ih h)

theorem mem_of_lastDisjunction? {a b : Formula} {formulas : List Formula}
    (h : lastDisjunction? formulas = some (a, b)) : .binary .or a b ∈ formulas := by
  fun_induction lastDisjunction? formulas with
  | case1 => cases h
  | case2 p q rest ih => cases hrest : lastDisjunction? rest <;> simp_all
  | case3 f rest _ ih => exact List.mem_cons_of_mem f (ih h)

theorem follows_dilemma {formulas : List Formula} {d : Draft} (h : isDilemma formulas = true) :
    dilemma formulas = some d → Follows formulas d := by
  unfold isDilemma at h
  split at h
  · next p q r s a b hcond hdisj =>
    have hpq : .binary .implies p q ∈ formulas := mem_of_mem_conditionals (by simp [hcond])
    have hrs : .binary .implies r s ∈ formulas := mem_of_mem_conditionals (by simp [hcond])
    have hab : .binary .or a b ∈ formulas := mem_of_lastDisjunction? hdisj
    have hcapital (hall : ∀ f ∈ formulas, f.Capital) : q.Capital ∧ s.Capital :=
      ⟨(Formula.capital_binary.mp (hall _ hpq)).2, (Formula.capital_binary.mp (hall _ hrs)).2⟩
    have hvalue (v : Char → Bool) (hv : ∀ f ∈ formulas, f.eval v = true) :
        q.eval v = true ∨ s.eval v = true := by
      have hq : p.eval v = false ∨ q.eval v = true := by simpa using hv _ hpq
      have hs : r.eval v = false ∨ s.eval v = true := by simpa using hv _ hrs
      have hor : a.eval v = true ∨ b.eval v = true := by simpa using hv _ hab
      have hsides : a = p ∧ b = r ∨ a = r ∧ b = p := by simpa using h
      obtain ⟨rfl, rfl⟩ | ⟨rfl, rfl⟩ := hsides
      · cases ha : a.eval v <;> simp_all
      · cases ha : a.eval v <;> simp_all
    simp only [dilemma, hcond, hdisj]
    split
    · rintro ⟨⟩
      exact ⟨by simpa using hcapital, by simpa using hvalue⟩
    · rintro ⟨⟩
      exact ⟨by simpa [and_comm] using hcapital, by simpa [or_comm] using hvalue⟩
  · cases h

end Rule

/-- A sentence that was read is quoted by a text that writes its formula. -/
theorem Sentence.quote_of_read {text : List Char} {s : Sentence} (h : Sentence.read text = .ok s) :
    ∃ q, (Content.sentence s).quote? = some q ∧ q.IsRead := by
  have htext := Sentence.text_of_read h
  obtain ⟨ts, f, hscan, hder, rfl⟩ := Sentence.derives_of_read h
  refine ⟨_, rfl, ts, ?_, hder⟩
  rw [htext]
  exact hscan.canonical

namespace Rule

theorem isRead_of_addedQuote? {value : Value} {q : Quote} (h : addedQuote? value = some q) :
    q.IsRead := by
  unfold addedQuote? at h
  split at h
  · next text =>
    split at h
    · next f letters hread =>
      cases h
      obtain ⟨ts, g, hscan, hder, heq⟩ := Sentence.derives_of_read hread
      cases heq
      exact ⟨ts, Scans.trim_iff.mp hscan, hder⟩
    · cases h
  · cases h

/-- The draft rests on the quotes: it is legible if they were read, and it is true whenever they
are. -/
def RestsOn (quotes : List Quote) (d : Draft) : Prop :=
  ((∀ q ∈ quotes, q.IsRead) → d.Legible) ∧
    ∀ v, (∀ q ∈ quotes, q.formula.eval v = true) → d.formula.eval v = true

theorem Follows.restsOn {formulas : List Formula} {quotes : List Quote} {d : Draft}
    (h : Follows formulas d) (hformulas : quotes.map Quote.formula = formulas) :
    RestsOn quotes d := by
  subst hformulas
  refine ⟨fun hread => h.1 ?_, fun v hv => h.2 v ?_⟩
  · simpa using fun q hq => (hread q hq).capital
  · simpa using hv

theorem restsOn_addition {value : Value} {a b : Quote} (hb : addedQuote? value = some b) :
    RestsOn [a] (.join .or (disjoined a) (disjoined b)) := by
  have hread := isRead_of_addedQuote? hb
  refine ⟨fun ha => ?_, fun v hv => ?_⟩
  · simpa [disjoined, hread] using ha
  · have hvalue : a.formula.eval v = true := by simpa using hv
    simp [disjoined, hvalue]

theorem restsOn_doublyNegated {mode : NegationMode} {a : Quote} {d : Draft}
    (h : doublyNegated mode a = some d) : RestsOn [a] d := by
  cases mode with
  | eliminate =>
    rw [doublyNegated] at h
    split at h
    · next p hp =>
      cases h
      refine Follows.restsOn (follows_one.mpr ?_) rfl
      simp [hp]
    · cases h
  | introduce =>
    cases h
    refine ⟨fun ha => ?_, fun v hv => ?_⟩
    · simpa using ha
    · simpa using hv

theorem restsOn_of_fromOne {choices : Choices} {rule : Rule} {a : Quote} {d : Draft}
    (h : rule.fromOne choices a = some d) : RestsOn [a] d := by
  cases rule with
  | conjunctionElimination => exact (follows_kept h).restsOn rfl
  | simplification => exact (follows_kept h).restsOn rfl
  | addition =>
    obtain ⟨b, hb, rfl⟩ := Option.map_eq_some_iff.mp h
    exact restsOn_addition hb
  | biconditionalElimination => exact (follows_directed h).restsOn rfl
  | doubleNegation => exact restsOn_doublyNegated h
  | deMorganConjunction => exact (follows_dualized (.inl ⟨rfl, rfl⟩) h).restsOn rfl
  | deMorganDisjunction => exact (follows_dualized (.inr ⟨rfl, rfl⟩) h).restsOn rfl
  | transposition => exact (follows_transposed h).restsOn rfl
  | implication => exact (follows_material h).restsOn rfl
  | exportation => exact (follows_exported h).restsOn rfl
  | absorption => exact (follows_absorbed h).restsOn rfl
  | modusPonens | modusTollens | hypotheticalSyllogism | disjunctiveSyllogism
  | conjunctionIntroduction | biconditionalIntroduction | resolution | constructiveDilemma =>
    cases h

theorem conditionals_of_accepted {test : Formula → Formula → Formula → Formula → Bool}
    {c d : Content} {a b : Quote} (hc : c.quote? = some a) (hd : d.quote? = some b)
    (h : bothConditional test c d = .ok true) :
    ∃ p q r s, a.formula = .binary .implies p q ∧ b.formula = .binary .implies r s ∧
      test p q r s = true := by
  simp only [bothConditional, (Content.of_quote? hc).1, (Content.of_quote? hd).1, ok_bind,
    pure_eq_ok] at h
  grind

theorem restsOn_swap {a b : Quote} {d : Draft} (h : RestsOn [b, a] d) : RestsOn [a, b] d := by
  simpa [RestsOn, and_comm] using h

/-- What is found in one order or the other rests on the two premises. -/
theorem restsOn_either {derive : Formula → Formula → Option Draft}
    (hderive : ∀ {f g d}, derive f g = some d → Follows [f, g] d) {a b : Quote} {d : Draft}
    (h : (derive a.formula b.formula).or (derive b.formula a.formula) = some d) :
    RestsOn [a, b] d := by
  obtain h | ⟨-, h⟩ := Option.or_eq_some_iff.mp h
  · exact (hderive h).restsOn rfl
  · exact restsOn_swap ((hderive h).restsOn rfl)

theorem restsOn_of_fromTwo {rule : Rule} {c d : Content} {a b : Quote} {e : Draft}
    (hc : c.quote? = some a) (hd : d.quote? = some b) (haccepts : rule.accepts [c, d] = .ok true)
    (h : rule.fromTwo a b = some e) : RestsOn [a, b] e := by
  cases rule with
  | modusPonens => exact restsOn_either follows_affirmed h
  | modusTollens => exact restsOn_either follows_denied h
  | disjunctiveSyllogism => exact restsOn_either follows_remaining h
  | hypotheticalSyllogism =>
    obtain ⟨p, q, r, s, ha, hb, htest⟩ := conditionals_of_accepted hc hd haccepts
    simp only [fromTwo, ha, hb, fromConditionals, Option.some.injEq] at h
    subst h
    have hlink : q = r ∨ s = p := by simpa using htest
    exact (follows_chained hlink).restsOn (by simp [ha, hb])
  | conjunctionIntroduction =>
    cases h
    refine ⟨fun hread => ?_, fun v hv => ?_⟩
    · simpa [conjoined] using hread
    · simpa [conjoined] using hv
  | biconditionalIntroduction =>
    obtain ⟨p, q, r, s, ha, hb, htest⟩ := conditionals_of_accepted hc hd haccepts
    simp only [fromTwo, ha, hb, fromConditionals, Option.some.injEq] at h
    subst h
    have hsame : p = s ∧ q = r := by simpa using htest
    exact (follows_biconditional hsame).restsOn (by simp [ha, hb])
  | resolution => exact (follows_fromDisjunctions h).restsOn rfl
  | conjunctionElimination | addition | simplification | biconditionalElimination
  | doubleNegation | deMorganConjunction | deMorganDisjunction | transposition | implication
  | exportation | absorption | constructiveDilemma => cases h

/-- What a rule puts together from premises that it accepts rests on these premises. -/
theorem restsOn_of_draft {choices : Choices} {rule : Rule} {contents : List Content}
    {quotes : List Quote} {d : Draft} (hquoted : Quoted contents quotes)
    (haccepts : rule.accepts contents = .ok true) (h : rule.draft choices quotes = some d) :
    RestsOn quotes d := by
  have hformulas := hquoted.formulas
  obtain _ | ⟨hc, _ | ⟨hd, _ | ⟨he, _ | _⟩⟩⟩ := hquoted
  · cases h
  · exact restsOn_of_fromOne h
  · exact restsOn_of_fromTwo hc hd haccepts h
  · rw [draft] at h
    split at h
    · next hrule =>
      subst hrule
      have hdilemma := bind_of_eq_ok hformulas fun formulas => .ok (isDilemma formulas)
      exact (follows_dilemma (Except.ok.inj (hdilemma.symm.trans haccepts)) h).restsOn rfl
    · cases h
  · cases h

theorem apply_inv {choices : Choices} {rule : Rule} {contents : List Content} {s : Sentence}
    (h : rule.apply choices contents = .ok (some s)) :
    rule.accepts contents = .ok true ∧
      ∃ text, rule.conclusion choices contents = .ok (some text) ∧ Sentence.read text = .ok s := by
  simp only [apply, bind, Except.bind, pure, Except.pure] at h
  grind

theorem apply_of_read {choices : Choices} {rule : Rule} {contents : List Content}
    (haccepts : rule.accepts contents = .ok true) {text : List Char}
    (hconclusion : rule.conclusion choices contents = .ok (some text)) {s : Sentence}
    (hread : Sentence.read text = .ok s) : rule.apply choices contents = .ok (some s) := by
  simp [apply, haccepts, hconclusion, hread, ok_bind, pure_eq_ok]

/-- A rule whose draft fits derives a sentence that is true whenever the premises are. -/
theorem apply_of_draft {choices : Choices} {rule : Rule} {contents : List Content}
    {quotes : List Quote} {d : Draft} {s : Sentence} (hquoted : Quoted contents quotes)
    (hread : ∀ q ∈ quotes, q.IsRead) (hdraft : rule.draft choices quotes = some d)
    (hfits : d.fits .iff = true) (h : rule.apply choices contents = .ok (some s)) :
    ∃ f, s.formula = some f ∧
      ∀ v, (∀ q ∈ quotes, q.formula.eval v = true) → f.eval v = true := by
  obtain ⟨haccepts, text, hconclusion, hs⟩ := apply_inv h
  obtain rfl : text = d.text := by
    simpa [conclusion_eq_draft hquoted (joins_of_draft hdraft), hdraft] using hconclusion.symm
  obtain ⟨hlegible, htrue⟩ := restsOn_of_draft hquoted haccepts hdraft
  obtain ⟨t, f, ht, hf, heval⟩ := Draft.read_of_fits (hlegible hread) hfits
  obtain rfl : t = s := Except.ok.inj (ht.symm.trans hs)
  exact ⟨f, hf, fun v hv => by rw [heval, htrue v hv]⟩

end Rule

end Sentential
