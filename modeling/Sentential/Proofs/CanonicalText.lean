import Mathlib
import Sentential.Proofs.Entailment

/-! The text that a sentence is shown as. Squeezing a text a second time changes nothing, and no
spelling that is replaced by a sign is left in the canonical spelling of a text that divides into
tokens. So the text of a sentence that was read is read as the same formula and shown as the same
text again, and texts tell formulas apart. Texts that are put together from such texts with
parentheses and connectives are shown as they are. -/

namespace Sentential

namespace Text

theorem squeezeFrom_blank {c : Char} (hc : isBlank c = true) (b : Bool) (text : List Char) :
    squeezeFrom b (c :: text) = squeezeFrom true text := by
  rw [squeezeFrom, if_pos hc]

theorem squeezeFrom_squeezeFrom (b : Bool) (text : List Char) :
    squeezeFrom false (squeezeFrom b text) = squeezeFrom b text := by
  -- a blank sets the flag, so the flag varies along the text
  induction text generalizing b with
  | nil => cases b <;> rfl
  | cons c rest ih =>
    by_cases hc : isBlank c = true
    · rw [squeezeFrom_blank hc, ih]
    · rw [Bool.not_eq_true] at hc
      cases b with
      | false => simp [Scans.squeezeFrom_cons hc, ih]
      | true =>
        -- the space written for the gap sets the flag again
        have hspace : isBlank ' ' = true := by decide
        simp [Scans.squeezeFrom_cons hc, squeezeFrom_blank hspace, ih]

/-- After a character that is no blank the rest of a text is squeezed by itself. -/
theorem squeezeFrom_append {a : Char} (ha : isBlank a = false) (b : Bool) (front rest : List Char) :
    squeezeFrom b (front ++ a :: rest) =
      squeezeFrom b (front ++ [a]) ++ squeezeFrom false rest := by
  induction front generalizing b with
  | nil =>
    rw [List.nil_append, List.nil_append, Scans.squeezeFrom_cons ha, Scans.squeezeFrom_cons ha,
      List.append_assoc]
    rfl
  | cons c front ih =>
    rw [List.cons_append, List.cons_append]
    by_cases hc : isBlank c = true
    · rw [squeezeFrom_blank hc, squeezeFrom_blank hc, ih]
    · rw [Bool.not_eq_true] at hc
      rw [Scans.squeezeFrom_cons hc, Scans.squeezeFrom_cons hc, ih, List.append_assoc,
        List.cons_append]

theorem mem_of_mem_squeezeFrom {b : Bool} {text : List Char} {a : Char}
    (h : a ∈ squeezeFrom b text) : a = ' ' ∨ a ∈ text := by
  induction text generalizing b with
  | nil => cases b <;> cases h
  | cons c rest ih =>
    by_cases hc : isBlank c = true
    · rw [squeezeFrom_blank hc] at h
      exact (ih h).imp_right (List.mem_cons_of_mem c)
    · rw [Scans.squeezeFrom_cons (by simpa using hc), List.mem_append, List.mem_cons] at h
      rcases h with h | rfl | h
      · cases b with
        | false => cases h
        | true => exact .inl (List.mem_singleton.mp h)
      · exact .inr List.mem_cons_self
      · exact (ih h).imp_right (List.mem_cons_of_mem c)

theorem isBlank_last_squeezeFrom {b : Bool} {text : List Char} {a : Char}
    (h : (squeezeFrom b text).getLast? = some a) : isBlank a = false := by
  induction text generalizing b with
  | nil => cases b <;> cases h
  | cons c rest ih =>
    by_cases hc : isBlank c = true
    · rw [squeezeFrom_blank hc] at h
      exact ih h
    · rw [Bool.not_eq_true] at hc
      rw [Scans.squeezeFrom_cons hc, List.getLast?_append, List.getLast?_cons] at h
      -- the last character is that of the rest, or `c` if nothing is written for the rest
      cases hlast : (squeezeFrom false rest).getLast? with
      | none =>
        obtain rfl : c = a := by simpa [hlast] using h
        exact hc
      | some d =>
        obtain rfl : d = a := by simpa [hlast] using h
        exact ih hlast

/-- A squeezed text does not begin with a blank. -/
theorem dropWhile_squeeze (text : List Char) : (squeeze text).dropWhile isBlank = squeeze text := by
  rw [squeeze]
  cases hrest : text.dropWhile isBlank with
  | nil => rfl
  | cons c rest =>
    have hc : isBlank c = false := by
      have hne : text.dropWhile isBlank ≠ [] := by simp [hrest]
      simpa [hrest] using List.head_dropWhile_not isBlank hne
    rw [Scans.squeezeFrom_cons hc]
    exact List.dropWhile_cons_of_neg (by simp [hc])

theorem squeeze_squeeze (text : List Char) : squeeze (squeeze text) = squeeze text := by
  rw [squeeze, dropWhile_squeeze, squeeze, squeezeFrom_squeezeFrom]

theorem trim_squeeze (text : List Char) : trim (squeeze text) = squeeze text := by
  rw [trim, dropWhile_squeeze]
  refine List.rdropWhile_eq_self_iff.mpr fun hne => ?_
  rw [Bool.not_eq_true]
  exact isBlank_last_squeezeFrom (List.getLast?_eq_some_getLast hne)

theorem mem_of_mem_squeeze {text : List Char} {a : Char} (h : a ∈ squeeze text) :
    a = ' ' ∨ a ∈ text :=
  (mem_of_mem_squeezeFrom h).imp_right fun ha => (List.dropWhile_sublist isBlank).subset ha

end Text

namespace Sentence

theorem spelled_of_isSettled {text : List Char} (h : ∀ c ∈ text, Scans.isSettled c = true) :
    spelled text = text := by
  induction text with
  | nil => rfl
  | cons c rest ih =>
    obtain ⟨hc, hrest⟩ := List.forall_mem_cons.mp h
    rw [Scans.spelled_cons_of_isSettled hc, ih hrest]

theorem isSettled_canonical {text : List Char} {ts : List Token} (h : Scans text ts) :
    ∀ c ∈ canonical text, Scans.isSettled c = true := by
  intro c hc
  rcases Text.mem_of_mem_squeeze hc with rfl | hc
  · decide
  · exact h.isSettled_spelled c hc

/-- The canonical spelling of a text that divides into tokens is its own canonical spelling. -/
theorem canonical_canonical {text : List Char} {ts : List Token} (h : Scans text ts) :
    canonical (canonical text) = canonical text := by
  calc canonical (canonical text) = Text.squeeze (canonical text) := by
        rw [canonical, spelled_of_isSettled (isSettled_canonical h)]
    _ = canonical text := Text.squeeze_squeeze _

end Sentence

namespace Text

/-- Texts in canonical spelling that are not empty. -/
structure Neat (text : List Char) : Prop where
  first : ∃ c rest, text = c :: rest ∧ isBlank c = false
  last : ∃ front a, text = front ++ [a] ∧ isBlank a = false
  squeezed : squeezeFrom false text = text
  settled : ∀ c ∈ text, Scans.isSettled c = true

namespace Neat

variable {text : List Char}

theorem dropWhile (h : Neat text) : text.dropWhile isBlank = text := by
  obtain ⟨c, rest, rfl, hc⟩ := h.first
  exact List.dropWhile_cons_of_neg (by simp [hc])

theorem trim (h : Neat text) : trim text = text := by
  obtain ⟨front, a, heq, ha⟩ := h.last
  rw [Text.trim, h.dropWhile, heq]
  simp [ha]

theorem canonical (h : Neat text) : Sentence.canonical text = text := by
  rw [Sentence.canonical, Sentence.spelled_of_isSettled h.settled, squeeze, h.dropWhile, h.squeezed]

theorem squeezeFrom_append (h : Neat text) (rest : List Char) :
    squeezeFrom false (text ++ rest) = text ++ squeezeFrom false rest := by
  have hsqueezed := h.squeezed
  obtain ⟨front, a, rfl, ha⟩ := h.last
  rw [List.append_assoc, List.singleton_append, Text.squeezeFrom_append ha, hsqueezed]

theorem inParens (h : Neat text) : Neat (Formula.inParens text) := by
  refine ⟨⟨'(', _, rfl, by decide⟩, ⟨'(' :: text, ')', rfl, by decide⟩, ?_, ?_⟩
  · rw [Formula.inParens, Scans.squeezeFrom_cons (by decide), h.squeezeFrom_append]
    rfl
  · simp only [Formula.inParens, List.forall_mem_cons, List.forall_mem_append]
    exact ⟨by decide, h.settled, by decide, by simp⟩

theorem wrap (h : Neat text) (parens : Bool) : Neat (Formula.wrap parens text) := by
  cases parens with
  | false => exact h
  | true => exact h.inParens

theorem joined {left right : List Char} (hleft : Neat left) (hright : Neat right)
    (c : Connective) : Neat (Formula.joined left c right) := by
  have hsymbol : isBlank c.symbol = false ∧ Scans.isSettled c.symbol = true := by
    cases c <;> decide
  have hspace : isBlank ' ' = true := by decide
  have hgap : squeezeFrom true right = ' ' :: right := by
    have hsqueezed := hright.squeezed
    obtain ⟨d, rest, rfl, hd⟩ := hright.first
    rw [Scans.squeezeFrom_cons hd] at hsqueezed ⊢
    exact congrArg (' ' :: ·) hsqueezed
  refine ⟨?_, ?_, ?_, ?_⟩
  · obtain ⟨d, rest, rfl, hd⟩ := hleft.first
    exact ⟨d, _, rfl, hd⟩
  · obtain ⟨front, a, rfl, ha⟩ := hright.last
    exact ⟨left ++ ' ' :: c.symbol :: ' ' :: front, a, by simp [Formula.joined], ha⟩
  · rw [Formula.joined, hleft.squeezeFrom_append, squeezeFrom_blank hspace,
      Scans.squeezeFrom_cons hsymbol.1, squeezeFrom_blank hspace, hgap]
    rfl
  · simp only [Formula.joined, List.forall_mem_append, List.forall_mem_cons]
    exact ⟨hleft.settled, by decide, hsymbol.2, by decide, hright.settled⟩

end Neat

theorem neat_squeeze {text : List Char} (hne : squeeze text ≠ [])
    (hsettled : ∀ c ∈ squeeze text, Scans.isSettled c = true) : Neat (squeeze text) := by
  refine ⟨?_, ?_, squeezeFrom_squeezeFrom false _, hsettled⟩
  · obtain ⟨c, rest, heq⟩ := List.exists_cons_of_ne_nil hne
    have hdrop := dropWhile_squeeze text
    rw [heq, List.dropWhile_eq_self_iff] at hdrop
    exact ⟨c, rest, heq, by simpa using hdrop⟩
  · obtain ⟨front, a, heq⟩ := (List.eq_nil_or_concat _).resolve_left hne
    rw [List.concat_eq_append] at heq
    have hlast : (squeezeFrom false (text.dropWhile isBlank)).getLast? = some a := by
      rw [← squeeze, heq, List.getLast?_concat]
    exact ⟨front, a, heq, isBlank_last_squeezeFrom hlast⟩

end Text

namespace Sentence

theorem IsRead.derives_text {s : Sentence} (h : s.IsRead) {f : Formula} (hf : s.formula = some f) :
    ∃ ts, Scans s.text ts ∧ Derives .iff ts f := by
  obtain ⟨input, hread⟩ := h
  have htext := text_of_read hread
  obtain ⟨ts, g, hscan, hder, rfl⟩ := derives_of_read hread
  obtain rfl : g = f := Option.some.inj hf
  rw [htext]
  exact ⟨ts, hscan.canonical, hder⟩

theorem IsRead.neat_text {s : Sentence} (h : s.IsRead) : Text.Neat s.text := by
  obtain ⟨input, hread⟩ := h
  have htext := text_of_read hread
  obtain ⟨ts, f, hscan, hder, rfl⟩ := derives_of_read hread
  rw [htext]
  exact Text.neat_squeeze (hscan.canonical.ne_nil hder.ne_nil) (isSettled_canonical hscan)

/-- A neat text is shown as it was read. -/
theorem text_of_neat {text : List Char} (h : Text.Neat text) {s : Sentence}
    (hread : read text = .ok s) : s.text = text := by
  have htext := text_of_read hread
  obtain ⟨ts, f, -, -, rfl⟩ := derives_of_read hread
  rw [htext, h.trim, h.canonical]

/-- The text of a sentence that was read is read as the sentence, with that text. -/
theorem IsRead.read_text {s : Sentence} (h : s.IsRead) :
    read s.text = .ok { s with source := s.text } := by
  obtain ⟨input, hread⟩ := h
  have htext := text_of_read hread
  obtain ⟨ts, f, hscan, hder, rfl⟩ := derives_of_read hread
  rw [htext, read_of_derives hscan.canonical hder, canonical, Text.trim_squeeze]

theorem IsRead.text_text {s : Sentence} (h : s.IsRead) :
    ({ s with source := s.text } : Sentence).text = s.text := by
  obtain ⟨input, hread⟩ := h
  have hagain := text_of_read (IsRead.read_text ⟨input, hread⟩)
  obtain ⟨ts, f, hscan, hder, hs⟩ := derives_of_read hread
  rw [hagain, text_of_read hread, canonical_canonical hscan]

/-- The formula of a sentence that was read is determined by the text that it is shown as. -/
theorem formula_eq_of_text_eq {s t : Sentence} (hs : s.IsRead) (ht : t.IsRead)
    (h : s.text = t.text) : s.formula = t.formula := by
  have hread := hs.read_text
  rw [h, ht.read_text] at hread
  exact (congrArg formula (Except.ok.inj hread)).symm

/-- The text of a sentence that was read from whatever input is read as a sentence with the same
formula and the same text; and any sentence that was read and has that text has the same formula. -/
theorem canonical_text_round_trip {input : List Char} {s : Sentence} (h : read input = .ok s) :
    (∃ t f, read s.text = .ok t ∧ s.formula = some f ∧ t.formula = some f ∧ t.text = s.text) ∧
    ∀ (other : List Char) (t : Sentence), read other = .ok t → t.text = s.text →
      t.sameFormula s = true := by
  have hs : s.IsRead := ⟨input, h⟩
  obtain ⟨f, hf, -⟩ := hs.formula
  refine ⟨⟨_, f, hs.read_text, hf, hf, hs.text_text⟩, fun other t ht htext => ?_⟩
  rw [sameFormula, formula_eq_of_text_eq ⟨other, ht⟩ hs htext, decide_eq_true_eq]

theorem canonical_text_round_trip_of_arrows :
    let input := " A<->B\t->  ~C&D".toList
    let f : Formula := .binary .iff (.letter 'A')
      (.binary .implies (.letter 'B') (.binary .and (.not (.letter 'C')) (.letter 'D')))
    let s : Sentence := ⟨"A<->B\t->  ~C&D".toList, some f, ['A', 'B', 'C', 'D']⟩
    read input = .ok s ∧ s.text = "A ↔ B → ~C∧D".toList ∧
      ∃ t, read s.text = .ok t ∧ t.formula = some f ∧ t.text = s.text := by
  intro input f s
  have hread : read input = .ok s := by
    unfold input s f
    cbv
  have htext : s.text = "A ↔ B → ~C∧D".toList := by decide
  obtain ⟨⟨t, g, ht, hs, hg, hsame⟩, -⟩ := canonical_text_round_trip hread
  obtain rfl : f = g := Option.some.inj hs
  exact ⟨hread, htext, t, ht, hg, hsame⟩

end Sentence

end Sentential
