import Mathlib.Data.List.Forall2
import Sentential.Proofs.Printing

/-! Values of formulas. Under an assignment of truth values to all its letters a formula has the
value that `Formula.eval` defines. Grouping chains to the left keeps the value of a formula without
denials, that is without negated conjunctions and disjunctions written as connectives of their own:
the chains left are of a single associative connective. So does writing such a formula and reading
it again. -/

namespace Sentential

/-- The truth value that an assignment gives a letter; false if it gives none. -/
def Assignment.valuation (values : Assignment Bool) (c : Char) : Bool :=
  (values.lookup c).getD false

/-- The assignment has a value for every letter of the list. -/
def Assignment.Covers (values : Assignment Bool) (letters : List Char) : Prop :=
  ∀ c ∈ letters, (values.lookup c).isSome = true

namespace Connective

attribute [simp] truth

/-- The connectives that deny what they join. -/
def isDenial : Connective → Bool
  | nand | nor => true
  | _ => false

theorem value_eq_truth (c : Connective) (a b : Bool) : c.value a b = c.truth a b := by
  cases c <;> cases a <;> cases b <;> rfl

theorem eq_of_level_eq {c d : Connective} (h : d.level = c.level) (hc : c.isDenial = false)
    (hd : d.isDenial = false) : d = c := by
  revert h hc hd
  cases c <;> cases d <;> decide

theorem ne_implies_of_chains {c d : Connective} (h : c.chains d = true) : c ≠ .implies := by
  rintro rfl
  cases d <;> cases h

theorem truth_assoc {c : Connective} (h : c ≠ .implies) (hc : c.isDenial = false)
    (x y z : Bool) : c.truth (c.truth x y) z = c.truth x (c.truth y z) := by
  cases c with
  | and => exact Bool.and_assoc x y z
  | or => exact Bool.or_assoc x y z
  | xor => exact Bool.xor_assoc x y z
  | iff => revert x y z; decide
  | implies => exact absurd rfl h
  | nand => cases hc
  | nor => cases hc

end Connective

namespace Formula

attribute [local grind =] evaluate letters parts

@[simp] theorem eval_letter (v : Char → Bool) (c : Char) : (letter c).eval v = v c := rfl

@[simp] theorem eval_not (v : Char → Bool) (f : Formula) : (not f).eval v = !f.eval v := rfl

@[simp] theorem eval_binary (v : Char → Bool) (c : Connective) (f g : Formula) :
    (binary c f g).eval v = c.truth (f.eval v) (g.eval v) := rfl

/-- No two parts of the formula are joined by a denial. -/
def isPlain : Formula → Bool
  | letter _ => true
  | not f => f.isPlain
  | binary c f g => !c.isDenial && f.isPlain && g.isPlain

theorem isPlain_binary {c : Connective} {f g : Formula} :
    (binary c f g).isPlain = true ↔ c.isDenial = false ∧ f.isPlain = true ∧ g.isPlain = true := by
  simp [isPlain, and_assoc]

/-- The chain that the formula goes on on the right of `c` has a denial. -/
@[grind =] def chainDenies (c : Connective) : Formula → Bool
  | binary d f _ => c.chains d && (d.isDenial || f.chainDenies c)
  | _ => false

/-- On the right of `c` the formula goes on a chain with denials, so that grouping the chain to the
left can change its value. -/
@[grind =] def clashes (c : Connective) (f : Formula) : Bool :=
  f.continues c && (c.isDenial || f.chainDenies c)

/-- No chain of the formula with denials is grouped otherwise than to the left. -/
def isStable : Formula → Bool
  | letter _ => true
  | not f => f.isStable
  | binary c f g => f.isStable && g.isStable && !g.clashes c

theorem isStable_binary {c : Connective} {f g : Formula} :
    (binary c f g).isStable = true ↔
      f.isStable = true ∧ g.isStable = true ∧ g.clashes c = false := by
  simp [isStable, and_assoc]

theorem chainDenies_of_isPlain {f : Formula} (h : f.isPlain = true) (c : Connective) :
    f.chainDenies c = false := by
  induction f with
  | letter a => rfl
  | not f => rfl
  | binary d f g ihf _ =>
    obtain ⟨hd, hf, -⟩ := isPlain_binary.mp h
    simp [chainDenies, hd, ihf hf]

theorem isStable_of_isPlain {f : Formula} (h : f.isPlain = true) : f.isStable = true := by
  induction f with
  | letter a => rfl
  | not f ih => exact ih h
  | binary c f g ihf ihg =>
    obtain ⟨hc, hf, hg⟩ := isPlain_binary.mp h
    refine isStable_binary.mpr ⟨ihf hf, ihg hg, ?_⟩
    simp [clashes, hc, chainDenies_of_isPlain hg c]

/-- Without a clash a chain on the right of `c` consists of `c` alone. -/
theorem eq_of_not_clashes {c d : Connective} {f g : Formula}
    (h : (binary d f g).clashes c = false) (hlevel : d.level = c.level) (hne : c ≠ .implies) :
    d = c ∧ c.isDenial = false ∧ f.clashes c = false := by
  by_cases hchain : c.chains d = true
  · simp only [clashes, continues_binary, chainDenies, hchain, Bool.true_and,
      Bool.or_eq_false_iff] at h
    obtain ⟨hc, hd, hf⟩ := h
    exact ⟨Connective.eq_of_level_eq hlevel hc hd, hc, by simp [clashes, hc, hf]⟩
  · -- the chain of a biconditional, which has no denial at its level
    obtain ⟨rfl, rfl⟩ : c = .iff ∧ d = .iff := by
      revert hchain hlevel hne
      cases c <;> cases d <;> decide
    exact ⟨rfl, rfl, by simp [clashes, not_continues (c := .iff) (by decide)]⟩

/-- Evaluation from the left to the right finds the value of the formula. -/
theorem evaluate_of_covers {values : Assignment Bool} {f : Formula} (h : values.Covers f.letters) :
    f.evaluate values = .ok (f.eval values.valuation) := by
  induction f with
  | letter c =>
    obtain ⟨b, hb⟩ := Option.isSome_iff_exists.mp (h c (by simp [letters]))
    simp [evaluate, Assignment.valuation, hb]
  | not f ih =>
    rw [evaluate, ih h]
    rfl
  | binary c f g ihf ihg =>
    rw [evaluate, ihf fun a ha => h a (mem_mergeLetters.mpr (.inl ha)),
      ihg fun a ha => h a (mem_mergeLetters.mpr (.inr ha)), eval_binary, ← c.value_eq_truth]
    rfl

theorem mem_letters_graft {a : Char} (c : Connective) (left f : Formula) :
    a ∈ (graft c left f).letters ↔ a ∈ left.letters ∨ a ∈ f.letters := by
  induction f with
  | letter b => exact mem_mergeLetters
  | not f => exact mem_mergeLetters
  | binary d f g ihf _ =>
    rw [graft]
    split
    · simp only [letters, mem_mergeLetters, ihf, or_assoc]
    · exact mem_mergeLetters

/-- Grouping chains to the left keeps the letters. -/
theorem mem_letters_regroup {a : Char} (f : Formula) : a ∈ f.regroup.letters ↔ a ∈ f.letters := by
  induction f with
  | letter b => rfl
  | not f ih => exact ih
  | binary c f g ihf ihg => rw [regroup, mem_letters_graft, ihf, ihg, letters, mem_mergeLetters]

theorem eval_graft {c : Connective} {f : Formula} (h : f.clashes c = false) (v : Char → Bool)
    (left : Formula) : (graft c left f).eval v = c.truth (left.eval v) (f.eval v) := by
  induction f with
  | letter a => rfl
  | not f => rfl
  | binary d f g ihf _ =>
    rw [graft]
    split
    · next hchain =>
      obtain ⟨rfl, hd, hf⟩ := eq_of_not_clashes h (Connective.chains_iff.mp hchain).1
        (Connective.ne_implies_of_chains hchain)
      rw [eval_binary, ihf hf, eval_binary,
        Connective.truth_assoc (Connective.ne_implies_of_chains hchain) hd]
    · rfl

theorem chainDenies_graft {c : Connective} {f : Formula} (h : f.clashes c = false)
    (d : Connective) (left : Formula) :
    (graft c left f).chainDenies d = (binary c left f).chainDenies d := by
  induction f with
  | letter a => rfl
  | not f => rfl
  | binary e f g ihf _ =>
    rw [graft]
    split
    · next hchain =>
      obtain ⟨rfl, he, hf⟩ := eq_of_not_clashes h (Connective.chains_iff.mp hchain).1
        (Connective.ne_implies_of_chains hchain)
      simp [chainDenies, ihf hf, he]
    · rfl

theorem chainDenies_regroup {f : Formula} (h : f.isStable = true) (c : Connective) :
    f.regroup.chainDenies c = f.chainDenies c := by
  induction f generalizing c with
  | letter a => rfl
  | not f => rfl
  | binary d f g ihf ihg =>
    obtain ⟨hf, hg, hclash⟩ := isStable_binary.mp h
    have hregroup : g.regroup.clashes d = false := by
      rw [clashes, continues_regroup, ihg hg, ← clashes, hclash]
    rw [regroup, chainDenies_graft hregroup, chainDenies, ihf hf, chainDenies]

theorem clashes_regroup {f : Formula} (h : f.isStable = true) (c : Connective) :
    f.regroup.clashes c = f.clashes c := by
  rw [clashes, continues_regroup, chainDenies_regroup h, clashes]

/-- Grouping the chains of a stable formula to the left keeps its value. -/
theorem eval_regroup {f : Formula} (h : f.isStable = true) (v : Char → Bool) :
    f.regroup.eval v = f.eval v := by
  induction f with
  | letter a => rfl
  | not f ih => rw [regroup, eval_not, eval_not, ih h]
  | binary c f g ihf ihg =>
    obtain ⟨hf, hg, hclash⟩ := isStable_binary.mp h
    rw [regroup, eval_graft (by rw [clashes_regroup hg, hclash]), ihf hf, ihg hg, eval_binary]

theorem mem_letters_of_mem_parts {f p : Formula} (hp : p ∈ f.parts) {a : Char}
    (ha : a ∈ p.letters) : a ∈ f.letters := by
  induction f with
  | letter c =>
    rw [parts, List.mem_singleton] at hp
    rwa [← hp]
  | not f ih =>
    rw [parts, List.mem_cons] at hp
    obtain rfl | hp := hp
    · exact ha
    · exact ih hp
  | binary c f g ihf ihg =>
    rw [parts, List.mem_cons, List.mem_append] at hp
    obtain rfl | hp | hp := hp
    · exact ha
    · exact mem_mergeLetters.mpr (.inl (ihf hp))
    · exact mem_mergeLetters.mpr (.inr (ihg hp))

theorem isPlain_of_mem_parts {f p : Formula} (hp : p ∈ f.parts) (h : f.isPlain = true) :
    p.isPlain = true := by
  induction f with
  | letter c =>
    rw [parts, List.mem_singleton] at hp
    rwa [hp]
  | not f ih =>
    rw [parts, List.mem_cons] at hp
    obtain rfl | hp := hp
    · exact h
    · exact ih hp h
  | binary c f g ihf ihg =>
    obtain ⟨_, hf, hg⟩ := isPlain_binary.mp h
    rw [parts, List.mem_cons, List.mem_append] at hp
    obtain rfl | hp | hp := hp
    · exact h
    · exact ihf hp hf
    · exact ihg hp hg

end Formula

namespace Sentence

/-- The sentence has the value of the formula under every assignment of truth values to the letters
of the formula. -/
def Agrees (s : Sentence) (f : Formula) : Prop :=
  ∀ values : Assignment Bool, values.Covers f.letters →
    ∃ b, f.evaluate values = .ok b ∧ s.evaluate values = .ok b

theorem evaluate_of_covers {s : Sentence} {f : Formula} (hs : s.formula = some f)
    {values : Assignment Bool} (hletters : values.Covers s.letters)
    (hcovers : values.Covers f.letters) : s.evaluate values = .ok (f.eval values.valuation) := by
  have hfind : (s.letters.find? fun c => (values.lookup c).isNone) = none := by
    rw [List.find?_eq_none]
    intro c hc
    rw [Bool.not_eq_true, Option.isNone_eq_false_iff]
    exact hletters c hc
  simp only [evaluate, hs, hfind]
  exact Formula.evaluate_of_covers hcovers

theorem read_print {f : Formula} (h : ∀ c ∈ f.letters, Text.isCapital c = true) :
    read f.print = .ok ⟨Text.trim f.print, some f.regroup, f.regroup.letters⟩ :=
  read_of_derives (Formula.scans_print h)
    (f.derives_tokens.1.mono (by cases f.category <;> decide))

theorem agrees_of_read_print {f : Formula} (h : ∀ c ∈ f.letters, Text.isCapital c = true)
    (hplain : f.isPlain = true) : ∃ s, read f.print = .ok s ∧ s.Agrees f := by
  refine ⟨_, read_print h, fun values hcovers => ?_⟩
  have hregroup : values.Covers f.regroup.letters := fun c hc =>
    hcovers c ((Formula.mem_letters_regroup f).mp hc)
  refine ⟨_, Formula.evaluate_of_covers hcovers, ?_⟩
  rw [evaluate_of_covers rfl hregroup hregroup,
    Formula.eval_regroup (Formula.isStable_of_isPlain hplain)]

/-- Reading members of a list one by one succeeds if each of them can be read. -/
theorem mapM_read {R : Formula → Sentence → Prop} {fs : List Formula}
    (h : ∀ f ∈ fs, ∃ s, read f.print = .ok s ∧ R f s) :
    ∃ ss, (fs.mapM fun f => read f.print) = .ok ss ∧ List.Forall₂ R fs ss := by
  induction fs with
  | nil => exact ⟨[], rfl, .nil⟩
  | cons f fs ih =>
    obtain ⟨s, hs, hR⟩ := h f (by simp)
    obtain ⟨ss, hss, hRs⟩ := ih fun g hg => h g (by simp [hg])
    refine ⟨s :: ss, ?_, .cons hR hRs⟩
    rw [List.mapM_cons, hs, hss]
    rfl

/-- The written form of a formula without denials is read as a sentence with the value of the
formula, and each sentence among the parts of a sentence has the value of the part that it was
written from. -/
theorem print_keeps_value (f : Formula) (h : ∀ c ∈ f.letters, Text.isCapital c = true)
    (hplain : f.isPlain = true) :
    (∃ s, read f.print = .ok s ∧ s.Agrees f) ∧
      ∀ t : Sentence, t.formula = some f →
        ∃ ss, t.parts = .ok ss ∧ List.Forall₂ (fun p s => s.Agrees p) f.parts ss := by
  refine ⟨agrees_of_read_print h hplain, fun t ht => ?_⟩
  simp only [parts, ht]
  exact mapM_read fun p hp => agrees_of_read_print
    (fun c hc => h c (Formula.mem_letters_of_mem_parts hp hc))
    (Formula.isPlain_of_mem_parts hp hplain)

/-- The conjunctions in "A ∧ (B ∧ C) → C" are read as grouped to the left, with the same value. -/
theorem print_keeps_value_of_nested_conjunctions :
    let f : Formula := .binary .implies
      (.binary .and (.letter 'A') (.binary .and (.letter 'B') (.letter 'C'))) (.letter 'C')
    (∀ c ∈ f.letters, Text.isCapital c = true) ∧ f.isPlain = true ∧
      (∃ s, read f.print = .ok s ∧ s.Agrees f) ∧
      ∀ t : Sentence, t.formula = some f →
        ∃ ss, t.parts = .ok ss ∧ List.Forall₂ (fun p s => s.Agrees p) f.parts ss := by
  intro f
  have hcapital : ∀ c ∈ f.letters, Text.isCapital c = true := List.all_eq_true.mp (by decide)
  exact ⟨hcapital, rfl, print_keeps_value f hcapital rfl⟩

end Sentence

end Sentential
