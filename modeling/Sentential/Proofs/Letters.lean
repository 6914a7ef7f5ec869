import Sentential.Proofs.Counterexamples
import Sentential.Proofs.Drafts

/-! The letters of a sentence: where they stand in its text, and what evaluation needs of them. Of
the characters of a text only the capitals become letters, all of them do, and the formula that is
derived has these letters and no others; so its written form has them too. An evaluation comes to a
value if all of them have one, and looks up nothing else. -/

namespace Sentential

theorem Token.eq_letter_iff {c a : Char} {t : Token} (h : ofChar? c = some t) :
    .letter a = t ↔ a = c ∧ Text.isCapital a = true := by
  constructor
  · rintro rfl
    have ha := isCapital_of_ofChar? h
    unfold ofChar? at h
    split at h
    · cases h
      exact ⟨rfl, ha⟩
    · split at h <;> cases h
  · rintro ⟨rfl, ha⟩
    unfold ofChar? at h
    rw [if_pos ha] at h
    exact Option.some.inj h

theorem Text.not_isCapital_of_isBlank {c : Char} (h : Text.isBlank c = true) :
    Text.isCapital c = false := by
  rw [← Bool.not_eq_true]
  intro hc
  have hblank : Scans [c] [] := .blank h .nil
  have hnil := hblank.unique (Formula.scans_letter hc)
  cases hnil

theorem mem_cons_and_isCapital {c a : Char} {text : List Char} (hc : Text.isCapital c = false) :
    (a ∈ c :: text ∧ Text.isCapital a = true) ↔ a ∈ text ∧ Text.isCapital a = true := by
  refine and_congr_left fun ha => ?_
  have hne : a ≠ c := by
    rintro rfl
    rw [ha] at hc
    cases hc
  simp [hne]

/-- The letters among the tokens of a text are its capitals. -/
theorem Scans.letter_mem_iff {text : List Char} {ts : List Token} (h : Scans text ts) (a : Char) :
    Token.letter a ∈ ts ↔ a ∈ text ∧ Text.isCapital a = true := by
  induction h with
  | nil => simp
  | arrow _ ih =>
    rw [mem_cons_and_isCapital (by decide), mem_cons_and_isCapital (by decide), ← ih]
    simp
  | doubleArrow _ ih =>
    rw [mem_cons_and_isCapital (by decide), mem_cons_and_isCapital (by decide),
      mem_cons_and_isCapital (by decide), ← ih]
    simp
  | blank hc _ ih => rw [mem_cons_and_isCapital (Text.not_isCapital_of_isBlank hc), ih]
  | sign _ hc _ ih => rw [List.mem_cons, List.mem_cons, or_and_right, Token.eq_letter_iff hc, ih]

theorem Derives.mem_letters {k : Category} {ts : List Token} {f : Formula} (h : Derives k ts f)
    {a : Char} (ha : .letter a ∈ ts) : a ∈ f.letters := by
  induction h using Derives.by_level with
  | letter c => simpa [Formula.letters] using ha
  | parens ts f _ ih => exact ih (by simpa using ha)
  | negation ts f _ ih => exact ih (by simpa using ha)
  | loosen k ts f _ _ ih => exact ih ha
  | chain k c ts us f g _ _ _ _ ihf ihg =>
    have hside : .letter a ∈ ts ∨ .letter a ∈ us := by simpa using ha
    exact Formula.mem_mergeLetters.mpr (hside.imp ihf ihg)
  | conditional ts us f g _ _ ihf ihg =>
    have hside : .letter a ∈ ts ∨ .letter a ∈ us := by simpa using ha
    exact Formula.mem_mergeLetters.mpr (hside.imp ihf ihg)

/-- The letters of a formula are the capitals of any text that it is derived from. -/
theorem Derives.mem_letters_iff {k : Category} {text : List Char} {ts : List Token} {f : Formula}
    (h : Derives k ts f) (hscan : Scans text ts) {a : Char} :
    a ∈ f.letters ↔ a ∈ text ∧ Text.isCapital a = true := by
  rw [← hscan.letter_mem_iff a]
  exact ⟨h.letter_mem, h.mem_letters⟩

namespace Formula

-- what the written form is read as has its chains grouped anew, with the same letters
theorem mem_letters_iff_mem_print {f : Formula} (h : ∀ c ∈ f.letters, Text.isCapital c = true)
    {a : Char} : a ∈ f.letters ↔ a ∈ f.print ∧ Text.isCapital a = true := by
  rw [← mem_letters_regroup]
  exact f.derives_tokens.1.mem_letters_iff (scans_print h)

theorem pairwise_letters (f : Formula) : f.letters.Pairwise (· < ·) := by
  induction f with
  | letter c => exact List.pairwise_singleton _ c
  | not f ih => exact ih
  | binary c f g _ ihg => exact pairwise_mergeLetters ihg

section

variable {α : Type} [TruthLike α] {values others : Assignment α} {f : Formula}

theorem exists_evaluate (h : ∀ c ∈ f.letters, values.lookup c ≠ none) :
    ∃ a, f.evaluate values = .ok a := by
  induction f with
  | letter c =>
    obtain ⟨a, ha⟩ := Option.ne_none_iff_exists'.mp (h c (by simp [letters]))
    exact ⟨a, by simp [evaluate, ha]⟩
  | not f ih =>
    obtain ⟨a, ha⟩ := ih h
    exact ⟨TruthLike.ofBool (!TruthLike.holds a), by rw [evaluate, ha]; rfl⟩
  | binary c f g ihf ihg =>
    obtain ⟨a, ha⟩ := ihf fun b hb => h b (mem_mergeLetters.mpr (.inl hb))
    obtain ⟨b, hb⟩ := ihg fun b hb => h b (mem_mergeLetters.mpr (.inr hb))
    exact ⟨c.value a b, by rw [evaluate, ha, hb]; rfl⟩

theorem evaluate_congr (h : ∀ c ∈ f.letters, others.lookup c = values.lookup c) :
    f.evaluate others = f.evaluate values := by
  induction f with
  | letter c => rw [evaluate, evaluate, h c (by simp [letters])]
  | not f ih => rw [evaluate, evaluate, ih h]
  | binary c f g ihf ihg =>
    rw [evaluate, evaluate, ihf fun b hb => h b (mem_mergeLetters.mpr (.inl hb)),
      ihg fun b hb => h b (mem_mergeLetters.mpr (.inr hb))]

end

end Formula

namespace Sentence

section

variable {s : Sentence}

theorem IsRead.pairwise_letters (h : s.IsRead) : s.letters.Pairwise (· < ·) := by
  obtain ⟨f, -, hletters⟩ := h.formula
  exact hletters ▸ f.pairwise_letters

theorem IsRead.mem_letters_iff_source (h : s.IsRead) (c : Char) :
    c ∈ s.letters ↔ c ∈ s.source ∧ Text.isCapital c = true := by
  obtain ⟨text, hread⟩ := h
  obtain ⟨ts, f, hscan, hder, rfl⟩ := derives_of_read hread
  exact hder.mem_letters_iff hscan

theorem IsRead.mem_letters_iff_printed (h : s.IsRead) (c : Char) :
    c ∈ s.letters ↔ c ∈ s.printed ∧ Text.isCapital c = true := by
  obtain ⟨f, hf, hletters⟩ := h.formula
  have hcapital : ∀ a ∈ f.letters, Text.isCapital a = true := fun a ha =>
    ((h.mem_letters_iff_source a).mp (hletters ▸ ha)).2
  rw [printed, hf, hletters]
  exact Formula.mem_letters_iff_mem_print hcapital

variable {α : Type} [TruthLike α]

/-- The evaluation of a sentence comes to a value, or it names a letter that has none. -/
theorem IsRead.evaluate_cases (h : s.IsRead) (values : Assignment α) :
    ((∀ c ∈ s.letters, values.lookup c ≠ none) ∧ ∃ a, s.evaluate values = .ok a) ∨
      ∃ c ∈ s.letters, values.lookup c = none ∧ s.evaluate values = .error (.unassigned c) := by
  obtain ⟨f, hf, hletters⟩ := h.formula
  simp only [evaluate, hf]
  cases hfind : s.letters.find? fun c => (values.lookup c).isNone with
  | none =>
    have hall : ∀ c ∈ s.letters, values.lookup c ≠ none := by simpa using hfind
    exact .inl ⟨hall, Formula.exists_evaluate (hletters ▸ hall)⟩
  | some c =>
    have hnone : values.lookup c = none := by simpa using List.find?_some hfind
    exact .inr ⟨c, List.mem_of_find?_eq_some hfind, hnone, rfl⟩

theorem IsRead.unassigned_of_error (h : s.IsRead) {values : Assignment α} {e : EvalError}
    (he : s.evaluate values = .error e) :
    ∃ c ∈ s.letters, values.lookup c = none ∧ e = .unassigned c := by
  obtain ⟨-, a, ha⟩ | ⟨c, hc, hnone, herror⟩ := h.evaluate_cases values
  · rw [ha] at he
    cases he
  · rw [herror] at he
    cases he
    exact ⟨c, hc, hnone, rfl⟩

theorem IsRead.exists_error_iff (h : s.IsRead) (values : Assignment α) :
    (∃ e, s.evaluate values = .error e) ↔ ∃ c ∈ s.letters, values.lookup c = none := by
  constructor
  · rintro ⟨e, he⟩
    obtain ⟨c, hc, hnone, -⟩ := h.unassigned_of_error he
    exact ⟨c, hc, hnone⟩
  · rintro ⟨c, hc, hnone⟩
    obtain ⟨hall, -⟩ | ⟨c', -, -, herror⟩ := h.evaluate_cases values
    · exact absurd hnone (hall c hc)
    · exact ⟨_, herror⟩

theorem IsRead.evaluate_congr (h : s.IsRead) {values others : Assignment α}
    (hsame : ∀ c ∈ s.letters, others.lookup c = values.lookup c) :
    s.evaluate others = s.evaluate values := by
  obtain ⟨f, hf, hletters⟩ := h.formula
  have hfind : (s.letters.find? fun c => (others.lookup c).isNone) =
      s.letters.find? fun c => (values.lookup c).isNone :=
    List.find?_congr fun c hc => by rw [hsame c hc]
  simp only [evaluate, hf, hfind, Formula.evaluate_congr (hletters ▸ hsame)]

end

/-- The letters that a sentence lists, in increasing order, are the capitals of its text and equally
those of the written form of its formula. Its evaluation fails exactly if one of them has no value,
and then it names such a letter, never one that is not listed. Assignments that agree on the letters
give the same result. -/
theorem letters_are_what_evaluation_needs {s : Sentence} (h : s.IsRead) :
    s.letters.Pairwise (· < ·) ∧
    (∀ c, c ∈ s.letters ↔ c ∈ s.source ∧ Text.isCapital c = true) ∧
    (∀ c, c ∈ s.letters ↔ c ∈ s.printed ∧ Text.isCapital c = true) ∧
    ∀ (α : Type) [TruthLike α] (values : Assignment α),
      ((∃ e, s.evaluate values = .error e) ↔ ∃ c ∈ s.letters, values.lookup c = none) ∧
      (∀ e, s.evaluate values = .error e →
        ∃ c ∈ s.letters, values.lookup c = none ∧ e = .unassigned c) ∧
      ∀ others : Assignment α, (∀ c ∈ s.letters, others.lookup c = values.lookup c) →
        s.evaluate others = s.evaluate values := by
  refine ⟨h.pairwise_letters, h.mem_letters_iff_source, h.mem_letters_iff_printed,
    fun α _ values => ⟨h.exists_error_iff values, fun e he => h.unassigned_of_error he, ?_⟩⟩
  exact fun others hsame => h.evaluate_congr hsame

/-- The letters of "~(B->A)&Γ" are listed in another order than they are written in. An assignment
without the last of them gives no value, and the value of a letter beyond them plays no part. -/
theorem letters_of_negated_conditional :
    let f : Formula := .binary .and
      (.not (.binary .implies (.letter 'B') (.letter 'A'))) (.letter 'Γ')
    let s : Sentence := ⟨"~(B->A)&Γ".toList, some f, ['A', 'B', 'Γ']⟩
    let short : Assignment Bool := [('A', false), ('B', true)]
    read s.source = .ok s ∧ (∃ e, s.evaluate short = .error e) ∧
      s.evaluate (('Γ', true) :: ('C', false) :: short) =
        s.evaluate (('Γ', true) :: short) := by
  intro f s short
  have hread : read s.source = .ok s := by
    unfold s f
    cbv
  obtain ⟨-, -, -, hevaluate⟩ := letters_are_what_evaluation_needs ⟨_, hread⟩
  obtain ⟨hfails, -, -⟩ := hevaluate Bool short
  obtain ⟨-, -, hsame⟩ := hevaluate Bool (('Γ', true) :: short)
  refine ⟨hread, hfails.mpr ⟨'Γ', by decide, by decide⟩, hsame _ ?_⟩
  simp [s, short, List.lookup]

end Sentence

end Sentential
