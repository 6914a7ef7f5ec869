import Mathlib
import Sentential.Proofs.Soundness

/-! Rules that cannot change the meaning of what they join. Applied to sentences without denials, a
guarded rule takes every part in parentheses, or at a place where it binds tightly enough, or lets
it go on a chain of one associative connective. What it derives has no denials and is true whenever
the sentences are; so in a run of guarded rules the premises entail every step. -/

namespace Sentential

/-- The token is no denial. -/
def Token.isPlain : Token → Bool
  | .binary c => !c.isDenial
  | _ => true

/-- The formula is a negation. -/
def Formula.isNegation : Formula → Bool
  | .not _ => true
  | _ => false

/-- The formula is a conditional between two negations. -/
def Formula.isContraposed : Formula → Bool
  | .binary .implies (.not _) (.not _) => true
  | _ => false

/-- The sentence has a formula, and it has no denials. -/
def Sentence.isPlain (s : Sentence) : Bool :=
  s.formula.any Formula.isPlain

theorem Derives.isPlain_eq {k : Category} {ts : List Token} {f : Formula} (h : Derives k ts f) :
    ts.all Token.isPlain = f.isPlain := by
  induction h using Derives.by_level with
  | letter c => rfl
  | parens ts f _ ih => simp [Token.isPlain, ih]
  | negation ts f _ ih => simp [Token.isPlain, Formula.isPlain, ih]
  | loosen k ts f _ _ ih => exact ih
  | chain k c ts us f g _ _ _ _ ihf ihg =>
    simp [Token.isPlain, Formula.isPlain, ihf, ihg, Bool.and_left_comm, Bool.and_assoc]
  | conditional ts us f g _ _ ihf ihg =>
    simp [Token.isPlain, Formula.isPlain, Connective.isDenial, ihf, ihg]

theorem Formula.isPlain_wrapTokens (parens : Bool) (ts : List Token) :
    (wrapTokens parens ts).all Token.isPlain = ts.all Token.isPlain := by
  cases parens <;> simp [wrapTokens, Token.isPlain]

theorem Formula.isPlain_tokens (f : Formula) : f.tokens.all Token.isPlain = f.isPlain := by
  induction f with
  | letter c => rfl
  | not f ih => simp [tokens, isPlain, Token.isPlain, isPlain_wrapTokens, ih]
  | binary c f g ihf ihg =>
    simp [tokens, isPlain, Token.isPlain, isPlain_wrapTokens, ihf, ihg, Bool.and_left_comm,
      Bool.and_assoc]

namespace Draft

theorem exists_scans {d : Draft} (hd : d.Legible) :
    ∃ ts, Scans d.text ts ∧ ts.all Token.isPlain = d.formula.isPlain := by
  induction d with
  | part f => exact ⟨f.tokens, Formula.scans_print hd, f.isPlain_tokens⟩
  | quote q =>
    obtain ⟨ts, hscan, hder⟩ := hd
    exact ⟨ts, hscan, hder.isPlain_eq⟩
  | parens d ih =>
    obtain ⟨ts, hscan, hplain⟩ := ih hd
    refine ⟨_, Formula.scans_wrap hscan true, ?_⟩
    rw [Formula.isPlain_wrapTokens, hplain, formula]
  | not d ih =>
    obtain ⟨ts, hscan, hplain⟩ := ih hd
    refine ⟨.not :: ts, .sign (by decide) (by decide) hscan, ?_⟩
    simpa [Token.isPlain, Formula.isPlain] using hplain
  | join c left right ihl ihr =>
    obtain ⟨ts, hscan, hplain⟩ := ihl hd.1
    obtain ⟨us, hscan', hplain'⟩ := ihr hd.2
    refine ⟨_, Formula.scans_joined c hscan hscan', ?_⟩
    simp [Token.isPlain, Formula.isPlain, hplain, hplain', Bool.and_left_comm, Bool.and_assoc]

/-- What is read from a draft has denials exactly if the draft is meant to have them, even if the
draft does not fit. -/
theorem isPlain_of_read {d : Draft} (hd : d.Legible) {s : Sentence}
    (h : Sentence.read d.text = .ok s) : s.isPlain = d.formula.isPlain := by
  obtain ⟨ts, hscan, hplain⟩ := exists_scans hd
  obtain ⟨us, f, hscan', hder, rfl⟩ := Sentence.derives_of_read h
  obtain rfl : us = ts := (Scans.trim_iff.mp hscan').unique hscan
  rw [← hplain, hder.isPlain_eq]
  rfl

/-- The draft can stand on both sides of the connective. -/
def suits (c : Connective) (d : Draft) : Bool :=
  d.fits c.leftCategory && (d.fits c.rightCategory || d.goesOn c)

theorem fits_join {c : Connective} {left right : Draft} (hleft : left.suits c = true)
    (hright : right.suits c = true) : (join c left right).fits .iff = true := by
  rw [suits, Bool.and_eq_true] at hleft hright
  simp [fits, c.level_le_iff, hleft.1, hright.2]

theorem suits_parens (c : Connective) {d : Draft} (h : d.fits .iff = true) :
    (parens d).suits c = true := by
  simp [suits, fits, h]

/-- A formula whose connective is of the level of `c` or tighter stands on the left of `c`; on the
right it is tighter, or goes on the chain of `c`. -/
theorem level_cases {c : Connective} (hc : c ≠ .implies) {k : Category}
    (h : k.level ≤ c.level) :
    k.level ≤ c.leftCategory.level ∧ (k.level ≤ c.rightCategory.level ∨ k = c.category) := by
  revert hc h
  cases c <;> cases k <;> decide

/-- The draft is a single written formula without denials: it fits where its connective is tight
enough, and goes on a chain of its connective. -/
structure Bare (f : Formula) (d : Draft) : Prop where
  fits : ∀ k : Category, f.category.level ≤ k.level → d.fits k = true
  goesOn : ∀ c : Connective, f.category = c.category → c.isDenial = false → d.goesOn c = true

theorem bare_part {f : Formula} (h : f.isPlain = true) : Bare f (part f) := by
  have hstable := Formula.isStable_of_isPlain h
  constructor
  · intro k hlevel
    simp [fits, hlevel, hstable]
  · intro c hcategory hc
    simp [goesOn, hcategory, hstable, Formula.clashes, hc, Formula.chainDenies_of_isPlain h]

theorem bare_quote {q : Quote} (h : q.formula.isPlain = true) : Bare q.formula (quote q) := by
  constructor
  · intro k hlevel
    simp [fits, hlevel]
  · intro c hcategory hc
    simp [goesOn, hcategory, Formula.clashes, hc, Formula.chainDenies_of_isPlain h]

theorem Bare.suits {f : Formula} {d : Draft} (h : Bare f d) {c : Connective} (hc : c ≠ .implies)
    (hdenial : c.isDenial = false) (hlevel : f.category.level ≤ c.level) : d.suits c = true := by
  obtain ⟨hleft, hright⟩ := level_cases hc hlevel
  rw [Draft.suits, Bool.and_eq_true, Bool.or_eq_true]
  refine ⟨h.fits _ hleft, ?_⟩
  rcases hright with hright | hcategory
  · exact .inl (h.fits _ hright)
  · exact .inr (h.goesOn c hcategory hdenial)

theorem suits_wrapped {q : Quote} (h : q.formula.isPlain = true) {c : Connective}
    (hc : c ≠ .implies) (hdenial : c.isDenial = false) {inside : Bool}
    (hbare : inside = false → q.formula.category.level ≤ c.level) :
    (wrapped inside (quote q)).suits c = true := by
  cases inside with
  | true => exact suits_parens c ((bare_quote h).fits _ (Category.level_le_iff _))
  | false => exact (bare_quote h).suits hc hdenial (hbare rfl)

/-- A negation fits at every place but that of an atom. -/
theorem fits_not_wrapped {f : Formula} {d : Draft} (h : Bare f d) {k : Category}
    (hk : 1 ≤ k.level) : (not (wrapped (f.head != .letter) d)).fits k = true := by
  have hinner : (wrapped (f.head != .letter) d).fits .not = true := by
    cases f with
    | letter a => exact h.fits .not (Nat.zero_le _)
    | not f => exact h.fits .iff (Category.level_le_iff _)
    | binary c f g => exact h.fits .iff (Category.level_le_iff _)
  simp [fits, hk, hinner]

theorem suits_negated {f : Formula} (h : f.isPlain = true) (c : Connective) :
    (negated f).suits c = true := by
  have hleft : 1 ≤ c.leftCategory.level := by cases c <;> decide
  have hright : 1 ≤ c.rightCategory.level := by cases c <;> decide
  simp [suits, negated, fits_not_wrapped (bare_part h) hleft,
    fits_not_wrapped (bare_part h) hright]

/-- The draft fits and is meant to have no denials. -/
structure Safe (d : Draft) : Prop where
  fits : d.fits .iff = true
  plain : d.formula.isPlain = true

theorem safe_part {f : Formula} (h : f.isPlain = true) : Safe (part f) :=
  ⟨(bare_part h).fits _ (Category.level_le_iff _), h⟩

theorem safe_join {c : Connective} (hc : c.isDenial = false) {left right : Draft}
    (hleft : left.suits c = true) (hright : right.suits c = true)
    (hplain : left.formula.isPlain = true ∧ right.formula.isPlain = true) :
    Safe (join c left right) :=
  ⟨fits_join hleft hright, Formula.isPlain_binary.mpr ⟨hc, hplain⟩⟩

theorem safe_negations {c : Connective} (hc : c.isDenial = false) {f g : Formula}
    (hf : f.isPlain = true) (hg : g.isPlain = true) :
    Safe (join c (negated f) (negated g)) :=
  safe_join hc (suits_negated hf c) (suits_negated hg c)
    (by simpa [Formula.isPlain] using And.intro hf hg)

end Draft

namespace Rule

open Draft

theorem safe_affirmed {f g : Formula} {d : Draft} (hg : g.isPlain = true) :
    affirmed f g = some d → Safe d := by
  fun_cases affirmed f g with
  | case1 q =>
    rintro ⟨⟩
    exact safe_part (Formula.isPlain_binary.mp hg).2.2
  | case2 | case3 => simp

theorem safe_denied {f g : Formula} {d : Draft} (hf : f.isPlain = true) :
    denied f g = some d → Safe d := by
  fun_cases denied f g with
  | case1 p q =>
    rintro ⟨⟩
    have hp := (Formula.isPlain_binary.mp hf).2.1
    exact ⟨fits_not_wrapped (bare_part hp) (by decide), by simpa [Formula.isPlain] using hp⟩
  | case2 | case3 => simp

theorem safe_remaining {f g : Formula} {d : Draft} (hf : f.isPlain = true) :
    remaining f g = some d → Safe d := by
  fun_cases remaining f g with
  | case1 q r =>
    rintro ⟨⟩
    exact safe_part (Formula.isPlain_binary.mp hf).2.2
  | case2 p q _ =>
    rintro ⟨⟩
    exact safe_part (Formula.isPlain_binary.mp hf).2.1
  | case3 | case4 => simp

theorem safe_kept {side : Side} {f : Formula} {d : Draft} (hf : f.isPlain = true) :
    kept side f = some d → Safe d := by
  fun_cases kept side f with
  | case1 p q =>
    rintro ⟨⟩
    exact safe_part (Formula.isPlain_binary.mp hf).2.1
  | case2 p q =>
    rintro ⟨⟩
    exact safe_part (Formula.isPlain_binary.mp hf).2.2
  | case3 => simp

theorem safe_doublyNegated {mode : NegationMode} {a : Quote} {d : Draft}
    (ha : a.formula.isPlain = true) : doublyNegated mode a = some d → Safe d := by
  fun_cases doublyNegated mode a with
  | case1 p hp =>
    rintro ⟨⟩
    rw [hp] at ha
    exact safe_part ha
  | case2 => simp
  | case3 =>
    rintro ⟨⟩
    refine ⟨?_, by simpa [Formula.isPlain] using ha⟩
    have hinner := fits_not_wrapped (bare_quote ha) (k := .not) (by decide)
    have hlevel : 1 ≤ Category.iff.level := by decide
    rw [fits, hinner, decide_eq_true hlevel]
    rfl

theorem safe_dualized {c d : Connective} (hd : d.isDenial = false) {f : Formula} {e : Draft}
    (hf : f.isPlain = true) (hguard : f.isNegation = true) : dualized c d f = some e → Safe e := by
  fun_cases dualized c d f with
  | case1 p q =>
    rintro ⟨⟩
    have hpq : (Formula.binary c p q).isPlain = true := hf
    obtain ⟨-, hp, hq⟩ := Formula.isPlain_binary.mp hpq
    exact safe_negations hd hp hq
  | case3 p q => cases hguard
  | case2 | case4 | case5 => simp

theorem safe_transposed {f : Formula} {d : Draft} (hf : f.isPlain = true)
    (hguard : f.isContraposed = false) :
    transposedDraft f = some d → Safe d := by
  fun_cases transposedDraft f with
  | case1 q p => cases hguard
  | case2 p q =>
    rintro ⟨⟩
    obtain ⟨-, hp, hq⟩ := Formula.isPlain_binary.mp hf
    exact safe_negations rfl hq hp
  | case3 => simp

theorem suits_conjoined {q : Quote} (h : q.formula.isPlain = true) :
    (conjoined q).suits .and = true := by
  refine suits_wrapped h (by decide) rfl fun hbare => ?_
  generalize q.formula = f at h hbare ⊢
  cases f with
  | letter a => exact Nat.zero_le _
  | not f => exact Nat.le_succ 1
  | binary c f g =>
    have hc := (Formula.isPlain_binary.mp h).1
    simp only [joinedBy, Formula.category] at hbare ⊢
    revert hc hbare
    cases c <;> decide

theorem suits_disjoined {q : Quote} (h : q.formula.isPlain = true) :
    (disjoined q).suits .or = true := by
  refine suits_wrapped h (by decide) rfl fun hbare => ?_
  generalize q.formula = f at hbare ⊢
  cases f with
  | letter a => exact Nat.zero_le _
  | not f => exact Nat.le_of_ble_eq_true rfl
  | binary c f g =>
    simp only [isLoose, joinedBy, Formula.category] at hbare ⊢
    revert hbare
    cases c <;> decide

theorem safe_conjunction {a b : Quote} (ha : a.formula.isPlain = true)
    (hb : b.formula.isPlain = true) : Safe (join .and (conjoined a) (conjoined b)) :=
  safe_join rfl (suits_conjoined ha) (suits_conjoined hb)
    (by simpa [conjoined] using And.intro ha hb)

theorem safe_addition {a b : Quote} (ha : a.formula.isPlain = true)
    (hb : b.formula.isPlain = true) : Safe (join .or (disjoined a) (disjoined b)) :=
  safe_join rfl (suits_disjoined ha) (suits_disjoined hb)
    (by simpa [disjoined] using And.intro ha hb)

theorem safe_conditionals {f g : Formula} {d : Draft} (hf : f.isPlain = true) :
    fromConditionals (fun p q _ _ => join .iff (part p) (part q)) f g = some d → Safe d := by
  fun_cases fromConditionals (fun p q _ _ => join .iff (part p) (part q)) f g with
  | case1 p q r s =>
    rintro ⟨⟩
    obtain ⟨-, hp, hq⟩ := Formula.isPlain_binary.mp hf
    exact safe_join rfl ((bare_part hp).suits (by decide) rfl (Category.level_le_iff _))
      ((bare_part hq).suits (by decide) rfl (Category.level_le_iff _)) ⟨hp, hq⟩
  | case2 => simp

end Rule

/-- The content is a sentence whose formula passes the test. -/
def Content.passes (test : Formula → Bool) : Content → Bool
  | sentence s => s.formula.any test
  | other _ => false

theorem Content.passes_of_quote? {c : Content} {q : Quote} (h : c.quote? = some q)
    (test : Formula → Bool) : c.passes test = test q.formula := by
  cases c with
  | other v => cases h
  | sentence s =>
    obtain ⟨f, hf, rfl⟩ := Option.map_eq_some_iff.mp h
    simp [passes, hf]

/-- What addition joins is a sentence without denials. -/
def Choices.addsPlain (choices : Choices) : Bool :=
  match choices.added with
  | .text text =>
    match Sentence.read text.toList with
    | .ok s => s.isPlain
    | .error _ => false
  | _ => false

namespace Rule

open Draft

/-- Where the rule is guarded. De Morgan's laws are so on a negation only, and transposition unless
it takes two negations away. -/
def isGuarded (choices : Choices) (contents : List Content) : Rule → Bool
  | modusPonens | modusTollens | disjunctiveSyllogism | conjunctionIntroduction
  | conjunctionElimination | simplification | biconditionalIntroduction | doubleNegation => true
  | addition => choices.addsPlain
  | deMorganConjunction | deMorganDisjunction => contents.all (Content.passes Formula.isNegation)
  | transposition => !contents.any (Content.passes Formula.isContraposed)
  | hypotheticalSyllogism | biconditionalElimination | implication | exportation | resolution
  | absorption | constructiveDilemma => false

theorem addedQuote?_of_addsPlain {choices : Choices} (h : choices.addsPlain = true) :
    ∃ b, addedQuote? choices.added = some b ∧ b.formula.isPlain = true := by
  unfold Choices.addsPlain at h
  split at h
  · next text hadded =>
    split at h
    · next s hread =>
      obtain ⟨f, hf, hplain⟩ := (Option.any_eq_true _ _).mp h
      refine ⟨⟨text.toList, f⟩, ?_, hplain⟩
      obtain ⟨source, formula, letters⟩ := s
      obtain rfl : formula = some f := hf
      simp only [addedQuote?, hadded, hread]
    · cases h
  · cases h

theorem safe_of_fromOne {choices : Choices} {rule : Rule} {c : Content} {a : Quote} {d : Draft}
    (hc : c.quote? = some a) (ha : a.formula.isPlain = true)
    (hguard : rule.isGuarded choices [c] = true) (h : rule.fromOne choices a = some d) :
    Safe d := by
  cases rule with
  | conjunctionElimination | simplification => exact safe_kept ha h
  | addition =>
    obtain ⟨b, hb, hplain⟩ := addedQuote?_of_addsPlain hguard
    rw [fromOne, hb] at h
    cases h
    exact safe_addition ha hplain
  | doubleNegation => exact safe_doublyNegated ha h
  | deMorganConjunction | deMorganDisjunction =>
    have hnegation : a.formula.isNegation = true := by
      simpa [isGuarded, Content.passes_of_quote? hc] using hguard
    exact safe_dualized rfl ha hnegation h
  | transposition =>
    have hstraight : a.formula.isContraposed = false := by
      simpa [isGuarded, Content.passes_of_quote? hc] using hguard
    exact safe_transposed ha hstraight h
  | biconditionalElimination | implication | exportation | absorption => cases hguard
  | modusPonens | modusTollens | hypotheticalSyllogism | disjunctiveSyllogism
  | conjunctionIntroduction | biconditionalIntroduction | resolution | constructiveDilemma =>
    cases h

theorem safe_of_fromTwo {choices : Choices} {rule : Rule} {contents : List Content}
    {a b : Quote} {d : Draft} (ha : a.formula.isPlain = true) (hb : b.formula.isPlain = true)
    (hguard : rule.isGuarded choices contents = true) (h : rule.fromTwo a b = some d) :
    Safe d := by
  cases rule with
  | modusPonens =>
    obtain h | ⟨-, h⟩ := Option.or_eq_some_iff.mp h
    · exact safe_affirmed hb h
    · exact safe_affirmed ha h
  | modusTollens =>
    obtain h | ⟨-, h⟩ := Option.or_eq_some_iff.mp h
    · exact safe_denied ha h
    · exact safe_denied hb h
  | disjunctiveSyllogism =>
    obtain h | ⟨-, h⟩ := Option.or_eq_some_iff.mp h
    · exact safe_remaining ha h
    · exact safe_remaining hb h
  | conjunctionIntroduction =>
    cases h
    exact safe_conjunction ha hb
  | biconditionalIntroduction => exact safe_conditionals ha h
  | hypotheticalSyllogism | resolution => cases hguard
  | conjunctionElimination | addition | simplification | biconditionalElimination
  | doubleNegation | deMorganConjunction | deMorganDisjunction | transposition | implication
  | exportation | absorption | constructiveDilemma => cases h

theorem joins_of_isGuarded {choices : Choices} {rule : Rule} {contents : List Content}
    (h : rule.isGuarded choices contents = true) : rule.Joins choices := by
  rintro rfl
  obtain ⟨b, hb, -⟩ := addedQuote?_of_addsPlain h
  simp [hb]

theorem safe_of_draft {choices : Choices} {rule : Rule} {contents : List Content}
    {quotes : List Quote} {d : Draft} (hquoted : Quoted contents quotes)
    (hplain : ∀ c ∈ contents, c.passes Formula.isPlain = true)
    (hguard : rule.isGuarded choices contents = true)
    (h : rule.draft choices quotes = some d) : Safe d := by
  have hformula : ∀ c ∈ contents, ∀ q : Quote, c.quote? = some q → q.formula.isPlain = true := by
    intro c hc q hquote
    rw [← Content.passes_of_quote? hquote Formula.isPlain]
    exact hplain c hc
  obtain _ | ⟨hc, _ | ⟨hd, _ | ⟨_, _ | _⟩⟩⟩ := hquoted
  · cases h
  · exact safe_of_fromOne hc (hformula _ (by simp) _ hc) hguard h
  · exact safe_of_fromTwo (hformula _ (by simp) _ hc) (hformula _ (by simp) _ hd) hguard h
  · rw [draft] at h
    split at h
    · next hrule =>
      subst hrule
      cases hguard
    · cases h
  · cases h

/-- What a guarded rule derives from sentences without denials has none, and its draft fits. -/
theorem derivesTightly_of_isGuarded {choices : Choices} {rule : Rule} {sentences : List Sentence}
    {s : Sentence} (hread : ∀ q ∈ sentences, q.IsRead)
    (hplain : ∀ q ∈ sentences, q.isPlain = true)
    (hguard : rule.isGuarded choices (sentences.map .sentence) = true)
    (h : rule.apply choices (sentences.map .sentence) = .ok (some s)) :
    rule.DerivesTightly (sentences.map .sentence) s ∧ s.isPlain = true := by
  have hsentences : ∀ c ∈ sentences.map Content.sentence, ∃ t, c = .sentence t ∧ t.IsRead := by
    simpa using hread
  obtain ⟨quotes, hquoted, hquotes⟩ := exists_quoted hsentences
  obtain ⟨haccepts, text, htext, hs⟩ := apply_inv h
  rw [conclusion_eq_draft hquoted (joins_of_isGuarded hguard), Except.ok.injEq,
    Option.map_eq_some_iff] at htext
  obtain ⟨d, hdraft, rfl⟩ := htext
  have hsafe : Safe d := by
    refine safe_of_draft hquoted (fun c hc => ?_) hguard hdraft
    obtain ⟨q, hq, rfl⟩ := List.mem_map.mp hc
    exact hplain q hq
  have hlegible := (restsOn_of_draft hquoted haccepts hdraft).1 hquotes
  refine ⟨⟨choices, quotes, d, h, hquoted, hdraft, hsafe.fits⟩, ?_⟩
  rw [isPlain_of_read hlegible hs, hsafe.plain]

end Rule

theorem Entails.append {premises : List Sentence} {s : Sentence} (h : Entails premises s)
    (more : List Sentence) : Entails (premises ++ more) s :=
  fun v hv => h v fun q hq => hv q (by simp [hq])

namespace Proof

/-- The move adds a premise without denials, applies a guarded rule, sets the conclusion or clears
the proof. -/
def guards (p : Proof) : Move → Bool
  | .premise text =>
    match Sentence.read text with
    | .ok s => s.isPlain
    | .error _ => true
  | .rule choices name (.steps indices) =>
    match Rule.called? name, p.contents indices with
    | some rule, .ok contents => rule.isGuarded choices contents
    | _, _ => true
  | .rule _ _ (.stray _) | .conclusion _ | .clear => true
  | .search _ => false

/-- Each of the moves is guarded in the proof that it changes. -/
def guardsRun : Proof → List Move → Bool
  | _, [] => true
  | p, m :: moves => p.guards m && guardsRun (p.after m) moves

/-- The steps have no denials and are entailed by the premises. -/
def PlainlySound (p : Proof) : Prop :=
  ∀ s ∈ p.steps, ∃ t, s.content = .sentence t ∧ t.isPlain = true ∧ Entails p.premises t

theorem PlainlySound.derived {p q : Proof} (h : p.PlainlySound) (hbuilt : WellBuilt p)
    {choices : Choices} {rule r : Rule} {indices : List Int}
    (hguard : ∀ contents, p.contents indices = .ok contents →
      rule.isGuarded choices contents = true)
    (happly : p.apply choices rule indices = .derived r q) : q.PlainlySound := by
  obtain ⟨contents, s, hcontents, hs, -, rfl⟩ := apply_inv happly
  obtain ⟨sentences, rfl, hsentences⟩ := hbuilt.contents_inv hcontents
  have hsteps : ∀ t ∈ sentences, t.IsRead ∧ t.isPlain = true ∧ Entails p.premises t := by
    intro t ht
    obtain ⟨hread, u, hu, hut⟩ := hsentences t ht
    obtain ⟨t', ht', hplain, hentails⟩ := h u hu
    obtain rfl : t' = t := Content.sentence.inj (ht'.symm.trans hut)
    exact ⟨hread, hplain, hentails⟩
  obtain ⟨htight, hplain⟩ := Rule.derivesTightly_of_isGuarded (fun t ht => (hsteps t ht).1)
    (fun t ht => (hsteps t ht).2.1) (hguard _ hcontents) hs
  have hentails : Entails p.premises s := by
    refine htight.entails fun c hc => ?_
    obtain ⟨t, ht, rfl⟩ := List.mem_map.mp hc
    exact ⟨t, rfl, (hsteps t ht).1, (hsteps t ht).2.2⟩
  intro u hu
  rw [steps_refreshed, addStep, List.mem_append, List.mem_singleton] at hu
  rw [premises_refreshed, addStep]
  rcases hu with hu | rfl
  · exact h u hu
  · exact ⟨s, rfl, hplain, hentails⟩

theorem PlainlySound.addPremise {p q : Proof} (h : p.PlainlySound) {s : Sentence}
    (hs : s.isPlain = true) (hadd : p.addPremise (.sentence s) = .ok q) : q.PlainlySound := by
  obtain ⟨s, hsame, -, rfl⟩ := addPremise_inv hadd
  cases hsame
  intro u hu
  simp only [addStep, List.mem_append, List.mem_singleton] at hu
  rcases hu with hu | rfl
  · obtain ⟨t, ht, hplain, hentails⟩ := h u hu
    exact ⟨t, ht, hplain, hentails.append [s]⟩
  · exact ⟨s, rfl, hs, fun v hv => hv s (by simp)⟩

theorem PlainlySound.after {p : Proof} (h : p.PlainlySound) (hbuilt : WellBuilt p) {m : Move}
    (hguard : p.guards m = true) : (p.after m).PlainlySound := by
  have heffect := effect_after p m
  generalize p.after m = q at heffect ⊢
  cases heffect with
  | @premise text s q hread hadd =>
    have hs : s.isPlain = true := by simpa only [guards, hread] using hguard
    exact h.addPremise hs hadd
  | conclusion hread hset =>
    cases hset
    intro u hu
    rw [steps_refreshed] at hu
    rw [premises_refreshed]
    exact h u hu
  | derived hrule happly =>
    refine h.derived hbuilt (fun contents hcontents => ?_) happly
    simpa only [guards, hrule, hcontents] using hguard
  | search limit => cases hguard
  | clear =>
    intro u hu
    cases hu
  | noPremise | noConclusion | declined => exact h

theorem plainlySound_foldl {p : Proof} (hp : Reachable p) (h : p.PlainlySound) {moves : List Move}
    (hguard : p.guardsRun moves = true) : (moves.foldl Proof.after p).PlainlySound := by
  induction moves generalizing p with
  | nil => exact h
  | cons m moves ih =>
    rw [guardsRun, Bool.and_eq_true] at hguard
    exact ih (reachable_after hp m) (h.after hp.wellBuilt hguard.1) hguard.2

/-- What a guarded rule derives from sentences without denials has none and is entailed by them; and
in a guarded run the premises entail every step. -/
theorem guarded_steps_entailed :
    (∀ (rule : Rule) (choices : Choices) (sentences : List Sentence) (s : Sentence),
      (∀ q ∈ sentences, q.IsRead ∧ q.isPlain = true) →
      rule.isGuarded choices (sentences.map .sentence) = true →
      rule.apply choices (sentences.map .sentence) = .ok (some s) →
      s.isPlain = true ∧ Entails sentences s) ∧
    ∀ moves : List Move, empty.guardsRun moves = true → (run moves).IsSound := by
  constructor
  · intro rule choices sentences s hsentences hguard happly
    obtain ⟨htight, hplain⟩ := Rule.derivesTightly_of_isGuarded (fun q hq => (hsentences q hq).1)
      (fun q hq => (hsentences q hq).2) hguard happly
    refine ⟨hplain, htight.entails fun c hc => ?_⟩
    obtain ⟨q, hq, rfl⟩ := List.mem_map.mp hc
    exact ⟨q, rfl, (hsentences q hq).1, fun v hv => hv q hq⟩
  · intro moves hguard s hs
    obtain ⟨t, ht, -, hentails⟩ :=
      plainlySound_foldl .empty (fun _ hs => nomatch hs) hguard s hs
    exact ⟨t, ht, hentails⟩

set_option maxRecDepth 4000 in
/-- Biconditional introduction joins A and "B ↔ C" to a chain that is read as "(A ↔ B) ↔ C";
likewise conjunction introduction in a run. -/
theorem guarded_steps_entailed_of_regrouping :
    let a : Sentence := ⟨"A → (B ↔ C)".toList, some (.binary .implies (.letter 'A')
      (.binary .iff (.letter 'B') (.letter 'C'))), ['A', 'B', 'C']⟩
    let b : Sentence := ⟨"(B ↔ C) → A".toList, some (.binary .implies
      (.binary .iff (.letter 'B') (.letter 'C')) (.letter 'A')), ['A', 'B', 'C']⟩
    let s : Sentence := ⟨"A ↔ B ↔ C".toList, some (.binary .iff
      (.binary .iff (.letter 'A') (.letter 'B')) (.letter 'C')), ['A', 'B', 'C']⟩
    let moves : List Move :=
      [.premise "A".toList, .premise "B ∧ C".toList, .rule {} "CI" (.steps [1, 2])]
    (Rule.biconditionalIntroduction.apply {} [.sentence a, .sentence b] = .ok (some s) ∧
      s.isPlain = true ∧ Entails [a, b] s) ∧
    empty.guardsRun moves = true ∧ (run moves).steps.length = 3 ∧ (run moves).IsSound := by
  intro a b s moves
  have hread : ∀ q ∈ [a, b], q.IsRead ∧ q.isPlain = true := by
    have ha : Sentence.read a.source = .ok a := by
      unfold a
      cbv
    have hb : Sentence.read b.source = .ok b := by
      unfold b
      cbv
    simpa using ⟨⟨⟨a.source, ha⟩, rfl⟩, ⟨b.source, hb⟩, rfl⟩
  have happly : Rule.biconditionalIntroduction.apply {} [.sentence a, .sentence b] =
      .ok (some s) := by
    unfold a b s
    cbv
  have hguard : empty.guardsRun moves = true := by
    unfold moves
    cbv
  have hlength : (run moves).steps.length = 3 := by
    unfold moves
    cbv
  exact ⟨⟨happly, guarded_steps_entailed.1 _ _ _ _ hread rfl happly⟩, hguard, hlength,
    guarded_steps_entailed.2 moves hguard⟩

end Proof

end Sentential
