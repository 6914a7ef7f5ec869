import Sentential.Proofs.Meaning
import Sentential.Rule.Conclusion

/-! Drafts: conclusions as they are put together from written parts, before they are read. A draft
has a text and the formula that it is meant to write. The text is read as a formula of the same
value if the draft fits: no part stands bare in a place that is read more tightly, or goes on a
chain that has denials. -/

namespace Sentential

/-- A sentence as a conclusion quotes it: by its text. -/
structure Quote where
  text : List Char
  formula : Formula

/-- The quote of a sentence that has a formula. -/
def Content.quote? : Content → Option Quote
  | sentence s => s.formula.map fun f => ⟨s.text, f⟩
  | other _ => none

/-- A conclusion put together from the written forms of formulas and the texts of sentences. -/
inductive Draft where
  | part (f : Formula)
  | quote (q : Quote)
  | parens (d : Draft)
  | not (d : Draft)
  | join (c : Connective) (left right : Draft)

/-- The category that the left side of a connective is read in. -/
def Connective.leftCategory : Connective → Category
  | .implies => .or
  | c => c.category

/-- The category that the right side of a connective is read in. -/
def Connective.rightCategory : Connective → Category
  | .implies => .implies
  | c => c.category.tighter

theorem Category.level_le_iff (k : Category) : k.level ≤ Category.iff.level := by
  cases k <;> decide

theorem Connective.level_le_iff (c : Connective) : c.level ≤ Category.iff.level :=
  c.level_category ▸ c.category.level_le_iff

namespace Draft

/-- The draft, in parentheses if asked for. -/
def wrapped (inside : Bool) (d : Draft) : Draft :=
  if inside then parens d else d

/-- The negation of a formula: all but a letter are put in parentheses. -/
def negated (f : Formula) : Draft :=
  .not (wrapped (f.head != .letter) (part f))

/-- The text that the draft comes to. -/
@[simp] def text : Draft → List Char
  | part f => f.print
  | quote q => q.text
  | parens d => Formula.inParens d.text
  | not d => '¬' :: d.text
  | join c left right => Formula.joined left.text c right.text

/-- The formula that the draft is meant to write. -/
@[simp] def formula : Draft → Formula
  | part f => f
  | quote q => q.formula
  | parens d => d.formula
  | not d => .not d.formula
  | join c left right => .binary c left.formula right.formula

/-- Bare on the right of `c`, the draft goes on the chain of `c`, and the chain has no denials. -/
def goesOn (c : Connective) : Draft → Bool
  | part f => f.category = c.category && f.isStable && !f.clashes c
  | quote q => q.formula.category = c.category && !q.formula.clashes c
  | _ => false

/-- Every part that stands bare binds as tightly as its place is read, or goes on a chain without
denials. The category is the one that the place of the whole draft is read in. -/
def fits : Draft → Category → Bool
  | part f, k => f.category.level ≤ k.level && f.isStable
  | quote q, k => q.formula.category.level ≤ k.level
  | parens d, _ => d.fits .iff
  | not d, k => 1 ≤ k.level && d.fits .not
  | join c left right, k =>
    c.level ≤ k.level && left.fits c.leftCategory &&
      (right.fits c.rightCategory || right.goesOn c)

@[simp] theorem text_wrapped (inside : Bool) (d : Draft) :
    (wrapped inside d).text = Formula.wrap inside d.text := by
  cases inside <;> rfl

@[simp] theorem formula_wrapped (inside : Bool) (d : Draft) :
    (wrapped inside d).formula = d.formula := by
  cases inside <;> rfl

@[simp] theorem text_negated (f : Formula) : (negated f).text = Rule.negated f := by
  simp [negated, Rule.negated]

@[simp] theorem formula_negated (f : Formula) : (negated f).formula = .not f := by
  simp [negated]

end Draft

/-- A formula whose connective binds tightly enough for a category is derived in it by the same
tokens. -/
theorem Derives.tighten {k k' : Category} {ts : List Token} {f : Formula} (h : Derives k ts f)
    (hle : f.category.level ≤ k'.level) : Derives k' ts f := by
  induction h using Derives.by_level with
  | letter c => exact (Derives.letter c).mono hle
  | parens ts f h _ => exact (Derives.parens h).mono (Nat.zero_le _)
  | negation ts f h _ => exact (Derives.negation h).mono hle
  | loosen k ts f _ h ih => exact ih hle
  | chain k c ts us f g hc hne hf hg _ _ =>
    refine (hf.chain hc hne hg).mono ?_
    rwa [← hc, ← c.level_category]
  | conditional ts us f g hf hg _ _ => exact (Derives.conditional hf hg).mono hle

/-- On the right of a connective other than the conditional a chain of its level is read member by
member. Without denials the value is as if the chain stood in parentheses. -/
theorem Derives.join_chain {k : Category} {c : Connective} {ts us : List Token} {f g : Formula}
    (hc : c.level = k.level) (hne : c ≠ .implies) (hf : Derives k ts f) (hg : Derives k us g)
    (hclash : g.clashes c = false) :
    ∃ h, Derives k (ts ++ .binary c :: us) h ∧ ∀ v, h.eval v = (Formula.binary c f g).eval v := by
  induction hg using Derives.by_level with
  | letter a => exact absurd hc (by cases c <;> decide)
  | parens us g _ _ => exact absurd hc (by cases c <;> decide)
  | negation us g _ _ => exact absurd hc (by cases c <;> decide)
  | loosen k us g _ hg _ => exact ⟨_, hf.chain hc hne hg, fun _ => rfl⟩
  | chain k d us ws g g' hd hne' hg hg' ih _ =>
    obtain ⟨rfl, hdenial, hclash'⟩ := Formula.eq_of_not_clashes hclash (hd.trans hc.symm) hne
    obtain ⟨h, hder, heval⟩ := ih hc hf hclash'
    refine ⟨.binary d h g', ?_, fun v => ?_⟩
    · simpa using hder.chain hd hne' hg'
    · rw [Formula.eval_binary, heval, Formula.eval_binary, Connective.truth_assoc hne hdenial,
        Formula.eval_binary, Formula.eval_binary]
  | conditional us ws g g' _ _ _ _ => exact absurd (by revert hc; cases c <;> decide) hne

theorem Connective.sideCategories {c : Connective} (h : c ≠ .implies) :
    c.leftCategory = c.category ∧ c.rightCategory = c.category.tighter := by
  revert h
  cases c <;> decide

/-- Two sides that are derived in their categories are joined. -/
theorem Derives.binary {c : Connective} {ts us : List Token} {f g : Formula}
    (hf : Derives c.leftCategory ts f) (hg : Derives c.rightCategory us g) :
    Derives c.category (ts ++ .binary c :: us) (.binary c f g) := by
  by_cases hc : c = .implies
  · subst hc
    exact .conditional hf hg
  · obtain ⟨hleft, hright⟩ := Connective.sideCategories hc
    rw [hleft] at hf
    rw [hright] at hg
    exact hf.chain c.level_category.symm hc hg

theorem Derives.join {c : Connective} {ts us : List Token} {f g : Formula}
    (hf : Derives c.leftCategory ts f)
    (hg : Derives c.rightCategory us g ∨ Derives c.category us g ∧ g.clashes c = false) :
    ∃ h, Derives c.category (ts ++ .binary c :: us) h ∧
      ∀ v, h.eval v = (Formula.binary c f g).eval v := by
  obtain hg | ⟨hg, hclash⟩ := hg
  · exact ⟨_, hf.binary hg, fun _ => rfl⟩
  by_cases hc : c = .implies
  · subst hc
    exact ⟨_, hf.binary hg, fun _ => rfl⟩
  · rw [(Connective.sideCategories hc).1] at hf
    exact hf.join_chain c.level_category.symm hc hg hclash

/-- A connective that a category reads, and an operand after it, go on what the category derives;
they may become part of its last operand. -/
theorem Derives.exists_operand {k : Category} {ts vs : List Token} {f g : Formula}
    (hf : Derives k ts f) (hg : Derives .not vs g) {c : Connective} (hc : c.level ≤ k.level) :
    ∃ h, Derives k (ts ++ .binary c :: vs) h := by
  have hlevel : 2 ≤ c.level := by cases c <;> decide
  induction hf using Derives.by_level with
  | letter a => exact absurd (Nat.le_trans hlevel hc) (by decide)
  | parens ts f _ _ => exact absurd (Nat.le_trans hlevel hc) (by decide)
  | negation ts f _ _ => exact absurd (Nat.le_trans hlevel hc) (by decide)
  | loosen k ts f _ hf ih =>
    have htighter := k.level_tighter
    by_cases hinner : c.level ≤ k.tighter.level
    · obtain ⟨h, hder⟩ := ih hinner
      exact ⟨h, hder.loosen⟩
    · have hsame : c.level = k.level := by omega
      have hside : Derives k.tighter vs g := hg.mono (show 1 ≤ _ by omega)
      by_cases hne : c = .implies
      · subst hne
        obtain rfl : k = .implies := by revert hsame; cases k <;> decide
        exact ⟨_, .conditional hf hside.loosen⟩
      · exact ⟨_, hf.loosen.chain hsame hne hside⟩
  | chain k d ts us f g' hd hne hf hg' _ ih =>
    have htighter := k.level_tighter
    by_cases hinner : c.level ≤ k.tighter.level
    · obtain ⟨h, hder⟩ := ih hinner
      exact ⟨_, by simpa using hf.chain hd hne hder⟩
    · have hsame : c.level = k.level := by omega
      have hne' : c ≠ .implies := by
        rintro rfl
        exact hne (by revert hd; rw [← hsame]; cases d <;> decide)
      exact ⟨_, (hf.chain hd hne hg').chain hsame hne' (hg.mono (show 1 ≤ _ by omega))⟩
  | conditional ts us f g' hf hg' _ ih =>
    obtain ⟨h, hder⟩ := ih hc
    exact ⟨_, by simpa using Derives.conditional hf hder⟩

/-- Two texts that can be read, joined by whatever connective, can be read. -/
theorem Derives.exists_joined {k : Category} {us : List Token} {g : Formula} (hg : Derives k us g)
    {ts : List Token} {f : Formula} (hf : Derives .iff ts f) (c : Connective) :
    ∃ h, Derives .iff (ts ++ .binary c :: us) h := by
  induction hg using Derives.by_level generalizing ts f c with
  | letter a => exact hf.exists_operand (.atom (.letter a)) c.level_le_iff
  | parens us g hg _ => exact hf.exists_operand (.atom (.parens hg)) c.level_le_iff
  | negation us g hg _ => exact hf.exists_operand (.negation hg) c.level_le_iff
  | loosen k us g _ _ ih => exact ih hf c
  | chain k d us ws g g' _ _ _ _ ihl ihr =>
    obtain ⟨h, hder⟩ := ihl hf c
    simpa using ihr hder d
  | conditional us ws g g' _ _ ihl ihr =>
    obtain ⟨h, hder⟩ := ihl hf c
    simpa using ihr hder .implies

/-- A negation sign before a text that can be read becomes part of its first operand. -/
theorem Derives.exists_negated {k : Category} {ts : List Token} {f : Formula} (h : Derives k ts f)
    (hk : k ≠ .atom) : ∃ g, Derives k (.not :: ts) g := by
  induction h using Derives.by_level with
  | letter c => exact absurd rfl hk
  | parens ts f _ _ => exact absurd rfl hk
  | negation ts f h _ => exact ⟨_, .negation (.negation h)⟩
  | loosen k ts f hne h ih =>
    by_cases hatom : k.tighter = .atom
    · obtain rfl : k = .not := by
        revert hne hatom
        cases k <;> decide
      exact ⟨_, .negation h.loosen⟩
    · obtain ⟨g, hder⟩ := ih hatom
      exact ⟨g, hder.loosen⟩
  | chain k c ts us f g hc hne _ hg ih _ =>
    obtain ⟨f', hder⟩ := ih hk
    exact ⟨_, hder.chain hc hne hg⟩
  | conditional ts us f g _ hg ih _ =>
    obtain ⟨f', hder⟩ := ih (by decide)
    exact ⟨_, .conditional hder hg⟩

/-- The text is read in the category, as a formula that has the value of `f`. -/
def Says (k : Category) (text : List Char) (f : Formula) : Prop :=
  ∃ ts g, Scans text ts ∧ Derives k ts g ∧ ∀ v, g.eval v = f.eval v

namespace Says

variable {k : Category} {text : List Char} {f : Formula}

theorem mono {k' : Category} (h : Says k text f) (hle : k.level ≤ k'.level) : Says k' text f := by
  obtain ⟨ts, g, hscan, hder, heval⟩ := h
  exact ⟨ts, g, hscan, hder.mono hle, heval⟩

theorem parens (h : Says .iff text f) : Says .atom (Formula.inParens text) f := by
  obtain ⟨ts, g, hscan, hder, heval⟩ := h
  exact ⟨_, g, Formula.scans_wrap hscan true, .parens hder, heval⟩

theorem not (h : Says .not text f) : Says .not ('¬' :: text) (.not f) := by
  obtain ⟨ts, g, hscan, hder, heval⟩ := h
  refine ⟨_, _, .sign (by decide) (by decide) hscan, .negation hder, fun v => ?_⟩
  rw [Formula.eval_not, Formula.eval_not, heval]

/-- The right side either is read in its category or goes on the chain. -/
theorem join {c : Connective} {left right : List Char} {g g' : Formula} {us : List Token}
    (hleft : Says c.leftCategory left f) (hscan : Scans right us)
    (hder : Derives c.rightCategory us g' ∨ Derives c.category us g' ∧ g'.clashes c = false)
    (heval : ∀ v, g'.eval v = g.eval v) :
    Says c.category (Formula.joined left c right) (.binary c f g) := by
  obtain ⟨ts, f', hscan', hder', heval'⟩ := hleft
  obtain ⟨h, hjoin, hsame⟩ := hder'.join hder
  refine ⟨_, h, Formula.scans_joined c hscan' hscan, hjoin, fun v => ?_⟩
  rw [hsame, Formula.eval_binary, heval', heval, Formula.eval_binary]

end Says

/-- All letters of the formula are capitals, as they are in a formula that was read. -/
def Formula.Capital (f : Formula) : Prop :=
  ∀ c ∈ f.letters, Text.isCapital c = true

@[simp] theorem Formula.capital_not {f : Formula} : (Formula.not f).Capital ↔ f.Capital := Iff.rfl

@[simp] theorem Formula.capital_binary {c : Connective} {f g : Formula} :
    (binary c f g).Capital ↔ f.Capital ∧ g.Capital := by
  simp only [Capital, letters, mem_mergeLetters]
  exact ⟨fun h => ⟨fun a ha => h a (.inl ha), fun a ha => h a (.inr ha)⟩,
    fun h a ha => ha.elim (h.1 a) (h.2 a)⟩

theorem Derives.letter_mem {k : Category} {ts : List Token} {f : Formula} (h : Derives k ts f)
    {a : Char} (ha : a ∈ f.letters) : .letter a ∈ ts := by
  induction h using Derives.by_level with
  | letter c => simpa [Formula.letters] using ha
  | parens ts f _ ih => simp [ih ha]
  | negation ts f _ ih => simp [ih ha]
  | loosen k ts f _ _ ih => exact ih ha
  | chain k c ts us f g _ _ _ _ ihf ihg =>
    obtain ha | ha := Formula.mem_mergeLetters.mp ha
    · simp [ihf ha]
    · simp [ihg ha]
  | conditional ts us f g _ _ ihf ihg =>
    obtain ha | ha := Formula.mem_mergeLetters.mp ha
    · simp [ihf ha]
    · simp [ihg ha]

theorem Token.isCapital_of_ofChar? {c a : Char} (h : ofChar? c = some (.letter a)) :
    Text.isCapital a = true := by
  unfold ofChar? at h
  split at h
  · next hc => cases h; exact hc
  · split at h <;> cases h

theorem Scans.isCapital {text : List Char} {ts : List Token} (h : Scans text ts) {a : Char}
    (ha : .letter a ∈ ts) : Text.isCapital a = true := by
  induction h with
  | nil => cases ha
  | arrow _ ih => exact ih (by simpa using ha)
  | doubleArrow _ ih => exact ih (by simpa using ha)
  | blank _ _ ih => exact ih ha
  | sign _ hsign _ ih =>
    obtain rfl | ha := List.mem_cons.mp ha
    · exact Token.isCapital_of_ofChar? hsign
    · exact ih ha

/-- The text of the quote writes its formula. -/
def Quote.IsRead (q : Quote) : Prop :=
  ∃ ts, Scans q.text ts ∧ Derives .iff ts q.formula

theorem Quote.IsRead.capital {q : Quote} (h : q.IsRead) : q.formula.Capital := by
  obtain ⟨ts, hscan, hder⟩ := h
  exact fun a ha => hscan.isCapital (hder.letter_mem ha)

namespace Draft

/-- The parts of the draft have capital letters and its quotes write their formulas. -/
@[simp] def Legible : Draft → Prop
  | part f => f.Capital
  | quote q => q.IsRead
  | parens d => d.Legible
  | not d => d.Legible
  | join _ left right => left.Legible ∧ right.Legible

@[simp] theorem legible_wrapped {inside : Bool} {d : Draft} :
    (wrapped inside d).Legible ↔ d.Legible := by
  cases inside <;> rfl

@[simp] theorem legible_negated {f : Formula} : (negated f).Legible ↔ f.Capital := by
  simp [negated]

theorem chain_of_goesOn {d : Draft} {c : Connective} (hd : d.Legible) (h : d.goesOn c = true) :
    ∃ ts g, Scans d.text ts ∧ Derives c.category ts g ∧ g.clashes c = false ∧
      ∀ v, g.eval v = d.formula.eval v := by
  cases d with
  | part f =>
    simp only [goesOn, Bool.and_eq_true, decide_eq_true_eq, Bool.not_eq_true'] at h
    obtain ⟨⟨hcategory, hstable⟩, hclash⟩ := h
    have hregroup : f.regroup.clashes c = false := by rw [Formula.clashes_regroup hstable, hclash]
    exact ⟨_, _, Formula.scans_print hd, hcategory ▸ f.derives_tokens.1, hregroup,
      Formula.eval_regroup hstable⟩
  | quote q =>
    simp only [goesOn, Bool.and_eq_true, decide_eq_true_eq, Bool.not_eq_true'] at h
    obtain ⟨ts, hscan, hder⟩ := hd
    exact ⟨ts, _, hscan, hder.tighten (h.1 ▸ Nat.le_refl _), h.2, fun _ => rfl⟩
  | parens d => cases h
  | not d => cases h
  | join c left right => cases h

theorem says_of_fits {d : Draft} {k : Category} (hd : d.Legible) (hfits : d.fits k = true) :
    Says k d.text d.formula := by
  induction d generalizing k with
  | part f =>
    simp only [fits, Bool.and_eq_true, decide_eq_true_eq] at hfits
    exact ⟨_, _, Formula.scans_print hd, f.derives_tokens.1.mono hfits.1,
      Formula.eval_regroup hfits.2⟩
  | quote q =>
    obtain ⟨ts, hscan, hder⟩ := hd
    exact ⟨ts, _, hscan, hder.tighten (of_decide_eq_true hfits), fun _ => rfl⟩
  | parens d ih => exact (ih hd hfits).parens.mono (Nat.zero_le _)
  | not d ih =>
    simp only [fits, Bool.and_eq_true, decide_eq_true_eq] at hfits
    exact (ih hd hfits.2).not.mono hfits.1
  | join c left right ihl ihr =>
    simp only [fits, Bool.and_eq_true, Bool.or_eq_true, decide_eq_true_eq] at hfits
    obtain ⟨⟨hlevel, hleft⟩, hright⟩ := hfits
    refine Says.mono ?_ (c.level_category ▸ hlevel)
    obtain hright | hright := hright
    · obtain ⟨us, g, hscan, hder, heval⟩ := ihr hd.2 hright
      exact (ihl hd.1 hleft).join hscan (.inl hder) heval
    · obtain ⟨us, g, hscan, hder, hclash, heval⟩ := chain_of_goesOn hd.2 hright
      exact (ihl hd.1 hleft).join hscan (.inr ⟨hder, hclash⟩) heval

/-- A draft that fits can be read, and what is read has the value of the formula that it is meant to
write. -/
theorem read_of_fits {d : Draft} (hd : d.Legible) (hfits : d.fits .iff = true) :
    ∃ s f, Sentence.read d.text = .ok s ∧ s.formula = some f ∧
      ∀ v, f.eval v = d.formula.eval v := by
  obtain ⟨ts, g, hscan, hder, heval⟩ := says_of_fits hd hfits
  exact ⟨_, g, Sentence.read_of_derives hscan hder, rfl, heval⟩

theorem exists_derives {d : Draft} (hd : d.Legible) :
    ∃ ts f, Scans d.text ts ∧ Derives .iff ts f := by
  induction d with
  | part f =>
    exact ⟨_, _, Formula.scans_print hd, f.derives_tokens.1.mono f.category.level_le_iff⟩
  | quote q =>
    obtain ⟨ts, hscan, hder⟩ := hd
    exact ⟨ts, _, hscan, hder⟩
  | parens d ih =>
    obtain ⟨ts, f, hscan, hder⟩ := ih hd
    exact ⟨_, f, Formula.scans_wrap hscan true, (Derives.parens hder).mono (Nat.zero_le _)⟩
  | not d ih =>
    obtain ⟨ts, f, hscan, hder⟩ := ih hd
    obtain ⟨g, hder'⟩ := hder.exists_negated (by decide)
    exact ⟨_, g, .sign (by decide) (by decide) hscan, hder'⟩
  | join c left right ihl ihr =>
    obtain ⟨ts, f, hscan, hder⟩ := ihl hd.1
    obtain ⟨us, g, hscan', hder'⟩ := ihr hd.2
    obtain ⟨h, hjoined⟩ := hder'.exists_joined hder c
    exact ⟨_, h, Formula.scans_joined c hscan hscan', hjoined⟩

/-- A draft can be read whether or not it fits, though not always as it was meant. -/
theorem exists_read {d : Draft} (hd : d.Legible) : ∃ s, Sentence.read d.text = .ok s := by
  obtain ⟨ts, f, hscan, hder⟩ := exists_derives hd
  exact ⟨_, Sentence.read_of_derives hscan hder⟩

end Draft

end Sentential
