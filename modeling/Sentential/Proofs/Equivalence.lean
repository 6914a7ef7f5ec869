import Mathlib
import Sentential.Proofs.CanonicalText
import Sentential.Proofs.Classification

/-! When two sentences always have the same value. The check goes through the assignments to the
letters of both. The other way is to put their texts in parentheses, write the sign of the
biconditional between them and ask whether what is read is a tautology; this goes through the
assignments to the letters of the new sentence. In the parentheses each text is read as it was
before, however it is spelled, so both ways come to the same answer. -/

namespace Sentential.Sentence

variable {s t : Sentence} {f g : Formula}

theorem agreeUnder_iff (hs : s.IsRead) (ht : t.IsRead) (hf : s.formula = some f)
    (hg : t.formula = some g) {values : Assignment Bool} (hcovers : values.Covers s.letters)
    (hcovers' : values.Covers t.letters) :
    agreeUnder values s t = true ↔ f.eval values.valuation = g.eval values.valuation := by
  have hvalue := evaluate_of_covers hf hcovers (hs.letters_eq hf ▸ hcovers)
  have hvalue' := evaluate_of_covers hg hcovers' (ht.letters_eq hg ▸ hcovers')
  simp [agreeUnder, hvalue, hvalue']

theorem isEquivalentOver_iff (hs : s.IsRead) (ht : t.IsRead) (hf : s.formula = some f)
    (hg : t.formula = some g) {letters : List Char} (hletters : ∀ c ∈ s.letters, c ∈ letters)
    (hletters' : ∀ c ∈ t.letters, c ∈ letters) :
    isEquivalentOver letters s t = true ↔ ∀ v, f.eval v = g.eval v := by
  refine Assignment.all_assignments_iff (fun values hin => ?_) fun v w hvw hsame => ?_
  · exact agreeUnder_iff hs ht hf hg (Assignment.covers_of_subset hin hletters)
      (Assignment.covers_of_subset hin hletters')
  · rw [hs.letters_eq hf] at hletters
    rw [ht.letters_eq hg] at hletters'
    calc f.eval w = f.eval v := Formula.eval_congr fun c hc => (hvw c (hletters c hc)).symm
      _ = g.eval v := hsame
      _ = g.eval w := Formula.eval_congr fun c hc => hvw c (hletters' c hc)

/-- Two texts in parentheses with the sign of the biconditional between them. -/
theorem toList_biconditional (s t : Sentence) :
    ("(" ++ s.shown ++ ") ↔ (" ++ t.shown ++ ")").toList =
      Formula.joined (Formula.inParens s.text) .iff (Formula.inParens t.text) := by
  simp [shown, Formula.joined, Formula.inParens, Connective.symbol]

theorem exists_biconditional (hs : s.IsRead) (ht : t.IsRead) (hf : s.formula = some f)
    (hg : t.formula = some g) :
    ∃ b, read ("(" ++ s.shown ++ ") ↔ (" ++ t.shown ++ ")").toList = .ok b ∧
      b.formula = some (.binary .iff f g) := by
  obtain ⟨ts, hscan, hder⟩ := hs.derives_text hf
  obtain ⟨us, hscan', hder'⟩ := ht.derives_text hg
  have hjoined := Formula.scans_joined .iff (Formula.scans_wrap hscan true)
    (Formula.scans_wrap hscan' true)
  have hiff : Derives .iff _ (.binary .iff f g) :=
    .biconditional ((Derives.parens hder).mono (Nat.zero_le _))
      ((Derives.parens hder').mono (Nat.zero_le _))
  rw [toList_biconditional]
  exact ⟨_, read_of_derives hjoined hiff, rfl⟩

/-- In whatever order the letters are taken, two sentences are found equivalent exactly if they have
the same value under every valuation. The biconditional of their texts is read as that of their
formulas, and it is found a tautology exactly then. -/
theorem equivalence_is_tautology_of_biconditional {s t : Sentence} (hs : s.IsRead) (ht : t.IsRead)
    {f g : Formula} (hf : s.formula = some f) (hg : t.formula = some g) {letters : List Char}
    (horder : letters.Perm (lettersOf [s, t])) :
    (isEquivalentOver letters s t = true ↔ ∀ v, f.eval v = g.eval v) ∧
    ∃ b, read ("(" ++ s.shown ++ ") ↔ (" ++ t.shown ++ ")").toList = .ok b ∧
      b.formula = some (.binary .iff f g) ∧ ∀ own : List Char, own.Perm b.letters →
        (b.isTautologyOver own = true ↔ ∀ v, f.eval v = g.eval v) := by
  have hletters : ∀ u ∈ [s, t], ∀ c ∈ u.letters, c ∈ letters := fun u hu c hc =>
    horder.mem_iff.mpr (mem_lettersOf.mpr ⟨u, hu, hc⟩)
  refine ⟨isEquivalentOver_iff hs ht hf hg (hletters s (by simp)) (hletters t (by simp)), ?_⟩
  obtain ⟨b, hread, hb⟩ := exists_biconditional hs ht hf hg
  refine ⟨b, hread, hb, fun own hown => ?_⟩
  rw [isTautologyOver_iff ⟨_, hread⟩ fun c hc => hown.mem_iff.mpr hc]
  refine forall_congr' fun v => ?_
  rw [isTrue_iff hb, Formula.eval_binary, Connective.truth, beq_iff_eq]

/-- The texts are spelled in different ways, with and without blanks. -/
theorem conditional_equivalent_to_disjunction :
    let f : Formula := .binary .implies (.letter 'A') (.letter 'B')
    let g : Formula := .binary .or (.not (.letter 'A')) (.letter 'B')
    let s : Sentence := ⟨"A->B".toList, some f, ['A', 'B']⟩
    let t : Sentence := ⟨"~A \t |B".toList, some g, ['A', 'B']⟩
    read s.source = .ok s ∧ read t.source = .ok t ∧ isEquivalentOver ['B', 'A'] s t = true ∧
      ∃ b, read "(A → B) ↔ (~A ∨B)".toList = .ok b ∧ b.formula = some (.binary .iff f g) ∧
        b.isTautology = true := by
  intro f g s t
  obtain ⟨hs, ht⟩ : read s.source = .ok s ∧ read t.source = .ok t := by
    unfold s t f g
    constructor
    · cbv
    · cbv
  have hsame : isEquivalentOver ['B', 'A'] s t = true := by decide
  have horder : ['B', 'A'].Perm (lettersOf [s, t]) := by decide
  obtain ⟨hdecides, b, hread, hb, htautology⟩ :=
    equivalence_is_tautology_of_biconditional ⟨_, hs⟩ ⟨_, ht⟩ rfl rfl horder
  exact ⟨hs, ht, hsame, b, hread, hb, (htautology _ (.refl _)).mpr (hdecides.mp hsame)⟩

end Sentential.Sentence
