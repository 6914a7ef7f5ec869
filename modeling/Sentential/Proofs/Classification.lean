import Mathlib
import Sentential.Proofs.Entailment

/-! What the classification of sentences decides. The checks go through the assignments to the
letters of a sentence, in whatever order these are listed, and find out whether its formula is true
or false under every valuation. No assignment to the letters leaves the sentence without a value, so
none is held against it for that reason. -/

namespace Sentential

/-- What the kinds mean for a formula. -/
def Classification.Fits : Classification → Formula → Prop
  | tautology, f => ∀ v, f.eval v = true
  | contradiction, f => ∀ v, f.eval v = false
  | contingent, f => (∃ v, f.eval v = true) ∧ ∃ v, f.eval v = false

namespace Classification

theorem name_inj {k l : Classification} : k.name = l.name ↔ k = l := by
  cases k <;> cases l <;> decide

theorem Fits.unique {k l : Classification} {f : Formula} (hk : k.Fits f) (hl : l.Fits f) :
    k = l := by
  -- there is a valuation, so nothing is both always true and always false
  have hboth : ¬((∀ v, f.eval v = true) ∧ ∀ v, f.eval v = false) := by
    rintro ⟨htrue, hfalse⟩
    exact Bool.noConfusion ((htrue fun _ => true).symm.trans (hfalse fun _ => true))
  have hnever {v : Char → Bool} (htrue : f.eval v = true) : ¬∀ w, f.eval w = false := by
    intro hfalse
    exact Bool.noConfusion (htrue.symm.trans (hfalse v))
  have hnot {v : Char → Bool} (hfalse : f.eval v = false) : ¬∀ w, f.eval w = true := by
    intro htrue
    exact Bool.noConfusion ((htrue v).symm.trans hfalse)
  cases k <;> cases l
  case tautology.tautology | contradiction.contradiction | contingent.contingent => rfl
  case tautology.contradiction => exact absurd ⟨hk, hl⟩ hboth
  case contradiction.tautology => exact absurd ⟨hl, hk⟩ hboth
  case tautology.contingent => exact absurd hk (hnot hl.2.choose_spec)
  case contingent.tautology => exact absurd hl (hnot hk.2.choose_spec)
  case contradiction.contingent => exact absurd hk (hnever hl.1.choose_spec)
  case contingent.contradiction => exact absurd hl (hnever hk.1.choose_spec)

end Classification

namespace Sentence

variable {s : Sentence} {f : Formula} {letters : List Char}

theorem isTautologyOver_iff (h : s.IsRead) (hletters : ∀ c ∈ s.letters, c ∈ letters) :
    s.isTautologyOver letters = true ↔ ∀ v, s.IsTrue v := by
  refine Assignment.all_assignments_iff (fun values hin => ?_) fun v w hvw => ?_
  · exact holdsUnder_iff h (Assignment.covers_of_subset hin hletters)
  · exact (isTrue_congr h fun c hc => hvw c (hletters c hc)).mp

theorem isContradictionOver_iff (h : s.IsRead) (hletters : ∀ c ∈ s.letters, c ∈ letters) :
    s.isContradictionOver letters = true ↔ ∀ v, ¬s.IsTrue v := by
  refine Assignment.all_assignments_iff (fun values hin => ?_) fun v w hvw => ?_
  · exact failsUnder_iff h (Assignment.covers_of_subset hin hletters)
  · exact mt (isTrue_congr h fun c hc => hvw c (hletters c hc)).mpr

theorem isTrue_iff (hf : s.formula = some f) {v : Char → Bool} :
    s.IsTrue v ↔ f.eval v = true := by
  simp [IsTrue, hf]

theorem fits_classifyOver
    (htautology : s.isTautologyOver letters = true ↔ ∀ v, f.eval v = true)
    (hcontradiction : s.isContradictionOver letters = true ↔ ∀ v, f.eval v = false) :
    (s.classifyOver letters).Fits f := by
  unfold classifyOver
  split
  · next htrue => exact htautology.mp htrue
  · next hsome =>
    split
    · next hfalse => exact hcontradiction.mp hfalse
    · next hother =>
      rw [hcontradiction, not_forall] at hother
      rw [htautology, not_forall] at hsome
      obtain ⟨v, hv⟩ := hother
      obtain ⟨w, hw⟩ := hsome
      exact ⟨⟨v, by simpa using hv⟩, w, by simpa using hw⟩

theorem isContingentOver_iff :
    s.isContingentOver letters = true ↔ s.classifyOver letters = .contingent := by
  unfold isContingentOver classifyOver
  cases s.isTautologyOver letters <;> cases s.isContradictionOver letters <;> decide

/-- In whatever order the letters of a sentence are taken, it is found a tautology exactly if it is
true under every valuation and a contradiction exactly if it is false under every one; it is given
the name of the one kind that fits its formula, and is contingent if that is its kind. -/
theorem classification_decides {s : Sentence} (h : s.IsRead) {f : Formula}
    (hf : s.formula = some f) {letters : List Char} (horder : letters.Perm s.letters) :
    (s.isTautologyOver letters = true ↔ ∀ v, f.eval v = true) ∧
    (s.isContradictionOver letters = true ↔ ∀ v, f.eval v = false) ∧
    (∀ k : Classification, (s.classifyOver letters).name = k.name ↔ k.Fits f) ∧
    (∃! k : Classification, k.Fits f) ∧
    (s.isContingentOver letters = true ↔ (s.classifyOver letters).name = "contingent") := by
  have hletters : ∀ c ∈ s.letters, c ∈ letters := fun c hc => horder.mem_iff.mpr hc
  have htautology : s.isTautologyOver letters = true ↔ ∀ v, f.eval v = true := by
    rw [isTautologyOver_iff h hletters]
    exact forall_congr' fun v => isTrue_iff hf
  have hcontradiction : s.isContradictionOver letters = true ↔ ∀ v, f.eval v = false := by
    rw [isContradictionOver_iff h hletters]
    exact forall_congr' fun v => by rw [isTrue_iff hf, Bool.not_eq_true]
  have hfits : (s.classifyOver letters).Fits f := fits_classifyOver htautology hcontradiction
  refine ⟨htautology, hcontradiction, fun k => ?_, ⟨_, hfits, fun k hk => hk.unique hfits⟩, ?_⟩
  · rw [Classification.name_inj]
    exact ⟨fun hk => hk ▸ hfits, hfits.unique⟩
  · rw [isContingentOver_iff]
    exact Classification.name_inj.symm

theorem classification_decides_of_contradiction :
    let f : Formula := .binary .and
      (.binary .and (.binary .implies (.letter 'A') (.letter 'B')) (.letter 'A'))
      (.not (.letter 'B'))
    let s : Sentence := ⟨"(A → B) ∧ A ∧ ¬B".toList, some f, ['A', 'B']⟩
    read s.source = .ok s ∧ ['B', 'A'].Perm s.letters ∧
      (s.classifyOver ['B', 'A']).name = "contradiction" ∧ ∀ v, f.eval v = false := by
  intro f s
  have hread : read s.source = .ok s := by
    unfold s f
    cbv
  have horder : ['B', 'A'].Perm s.letters := by decide
  have hname : (s.classifyOver ['B', 'A']).name = "contradiction" := by
    unfold s f
    decide
  obtain ⟨-, -, hkind, -, -⟩ := classification_decides ⟨_, hread⟩ rfl horder
  exact ⟨hread, horder, hname, (hkind .contradiction).mp hname⟩

end Sentence

end Sentential
