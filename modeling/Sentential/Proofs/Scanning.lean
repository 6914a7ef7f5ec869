import Sentential.Proofs.Grammar
import Sentential.Sentence

/-! The division of a text into tokens as a relation. `Scans` says character by character what the
scanner makes of a text that it accepts; the positions that it counts play no part. Texts can be
joined at any place, and neither blanks at the ends nor the canonical spelling change the tokens.
With the grammar this gives what a text is read as. -/

namespace Sentential

open Token

/-- The text is divided into the tokens. -/
inductive Scans : List Char → List Token → Prop
  | nil : Scans [] []
  | arrow {text : List Char} {ts : List Token} :
      Scans text ts → Scans ('-' :: '>' :: text) (.binary .implies :: ts)
  | doubleArrow {text : List Char} {ts : List Token} :
      Scans text ts → Scans ('<' :: '-' :: '>' :: text) (.binary .iff :: ts)
  | blank {c : Char} {text : List Char} {ts : List Token} :
      Text.isBlank c = true → Scans text ts → Scans (c :: text) ts
  | sign {c : Char} {t : Token} {text : List Char} {ts : List Token} :
      Text.isBlank c = false → ofChar? c = some t → Scans text ts → Scans (c :: text) (t :: ts)

theorem ofChar?_ne_arrow {c : Char} {t : Token} (h : ofChar? c = some t) : c ≠ '-' ∧ c ≠ '<' := by
  have hdash : ofChar? '-' = none := by decide
  have hangle : ofChar? '<' = none := by decide
  constructor
  · rintro rfl
    exact absurd h (by simp [hdash])
  · rintro rfl
    exact absurd h (by simp [hangle])

theorem isBlank_ne_arrow {c : Char} (h : Text.isBlank c = true) : c ≠ '-' ∧ c ≠ '<' := by
  constructor
  · rintro rfl
    exact absurd h (by decide)
  · rintro rfl
    exact absurd h (by decide)

theorem scanFrom_cons {c : Char} (h : c ≠ '-' ∧ c ≠ '<') (i : Nat) (text : List Char) :
    scanFrom i (c :: text) =
      if Text.isBlank c then scanFrom (i + 1) text
      else match ofChar? c with
        | some t => (t :: ·) <$> scanFrom (i + 1) text
        | none => .error (.badCharacter c i) :=
  scanFrom.eq_4 i c text (fun _ hc _ => h.1 hc) fun _ hc _ => h.2 hc

theorem Scans.scanFrom {text : List Char} {ts : List Token} (h : Scans text ts) (i : Nat) :
    scanFrom i text = .ok ts := by
  induction h generalizing i with
  | nil => rfl
  | arrow _ ih => rw [scanFrom.eq_2, ih]; rfl
  | doubleArrow _ ih => rw [scanFrom.eq_3, ih]; rfl
  | blank hc _ ih => rw [scanFrom_cons (isBlank_ne_arrow hc), if_pos hc, ih]
  | sign hblank hc _ ih =>
    rw [scanFrom_cons (ofChar?_ne_arrow hc), hblank, hc]
    simp only [Bool.false_eq_true, if_false, ih]
    rfl

theorem cons_map_eq_ok {t : Token} {x : Except ParseError (List Token)} {ts : List Token}
    (h : (t :: ·) <$> x = .ok ts) : ∃ us, x = .ok us ∧ ts = t :: us := by
  cases x with
  | error e => cases h
  | ok us => cases h; exact ⟨us, rfl, rfl⟩

theorem scans_of_scanFrom {text : List Char} {ts : List Token} {i : Nat}
    (h : scanFrom i text = .ok ts) : Scans text ts := by
  induction i, text using scanFrom.induct generalizing ts with
  | case1 i => cases h; exact .nil
  | case2 i text ih =>
    rw [scanFrom.eq_2] at h
    obtain ⟨us, hus, rfl⟩ := cons_map_eq_ok h
    exact .arrow (ih hus)
  | case3 i text ih =>
    rw [scanFrom.eq_3] at h
    obtain ⟨us, hus, rfl⟩ := cons_map_eq_ok h
    exact .doubleArrow (ih hus)
  | case4 i c text _ _ hblank ih =>
    rw [scanFrom_cons (isBlank_ne_arrow hblank), if_pos hblank] at h
    exact .blank hblank (ih h)
  | case5 i c text _ _ hblank t ht ih =>
    rw [scanFrom_cons (ofChar?_ne_arrow ht), if_neg hblank, ht] at h
    obtain ⟨us, hus, rfl⟩ := cons_map_eq_ok h
    exact .sign (by simpa using hblank) ht (ih hus)
  | case6 i c text hdash hangle hblank hnone =>
    rw [scanFrom.eq_4 i c text hdash hangle, if_neg hblank, hnone] at h
    cases h

/-- The scanner accepts a text exactly if it is divided into tokens, and gives these. -/
theorem scan_eq_ok {text : List Char} {ts : List Token} : scan text = .ok ts ↔ Scans text ts :=
  ⟨scans_of_scanFrom, fun h => h.scanFrom 0⟩

namespace Scans

variable {s t text : List Char} {ts us : List Token}

theorem unique (h : Scans text ts) (h' : Scans text us) : ts = us :=
  Except.ok.inj ((scan_eq_ok.mpr h).symm.trans (scan_eq_ok.mpr h'))

theorem append (hs : Scans s ts) (ht : Scans t us) : Scans (s ++ t) (ts ++ us) := by
  induction hs with
  | nil => exact ht
  | arrow _ ih => exact .arrow ih
  | doubleArrow _ ih => exact .doubleArrow ih
  | blank hc _ ih => exact .blank hc ih
  | sign hblank hc _ ih => exact .sign hblank hc ih

theorem dropWhile_isBlank (h : Scans text ts) : Scans (text.dropWhile Text.isBlank) ts := by
  induction h with
  | nil => exact .nil
  | arrow h => exact .arrow h
  | doubleArrow h => exact .doubleArrow h
  | blank hc _ ih => rwa [List.dropWhile_cons_of_pos hc]
  | sign hblank hc h =>
    rw [List.dropWhile_cons_of_neg (by simp [hblank])]
    exact .sign hblank hc h

theorem eq_nil_of_nil (h : Scans [] ts) : ts = [] := by
  cases h
  rfl

theorem ne_nil (h : Scans text ts) (hts : ts ≠ []) : text ≠ [] := by
  rintro rfl
  exact hts h.eq_nil_of_nil

/-- A blank at the end of a text may go. -/
theorem of_concat {c : Char} (hc : Text.isBlank c = true) (h : Scans (s ++ [c]) ts) :
    Scans s ts := by
  have hgt : c ≠ '>' := by
    rintro rfl
    exact absurd hc (by decide)
  generalize hw : s ++ [c] = w at h
  induction h generalizing s with
  | nil => simp at hw
  | arrow _ ih =>
    match s with
    | [] => simp at hw
    | [a] => simp [hgt] at hw
    | a :: b :: s =>
      obtain ⟨rfl, rfl, htail⟩ : a = '-' ∧ b = '>' ∧ s ++ [c] = _ := by simpa using hw
      exact .arrow (ih htail)
  | doubleArrow _ ih =>
    match s with
    | [] => simp at hw
    | [a] => simp at hw
    | [a, b] => simp [hgt] at hw
    | a :: b :: d :: s =>
      obtain ⟨rfl, rfl, rfl, htail⟩ : a = '<' ∧ b = '-' ∧ d = '>' ∧ s ++ [c] = _ := by
        simpa using hw
      exact .doubleArrow (ih htail)
  | blank ha h ih =>
    match s with
    | [] =>
      obtain ⟨rfl, rfl⟩ : c = _ ∧ [] = _ := by simpa using hw
      rw [h.eq_nil_of_nil]
      exact .nil
    | a :: s =>
      obtain ⟨rfl, htail⟩ : a = _ ∧ s ++ [c] = _ := by simpa using hw
      exact .blank ha (ih htail)
  | sign hblank ha _ ih =>
    match s with
    | [] =>
      obtain ⟨rfl, -⟩ : c = _ ∧ [] = _ := by simpa using hw
      exact absurd hc (by simp [hblank])
    | a :: s =>
      obtain ⟨rfl, htail⟩ : a = _ ∧ s ++ [c] = _ := by simpa using hw
      exact .sign hblank ha (ih htail)

theorem of_append_blanks {w : List Char} (hw : ∀ c ∈ w, Text.isBlank c = true)
    (h : Scans (s ++ w) ts) : Scans s ts := by
  induction w generalizing s with
  | nil => rwa [List.append_nil] at h
  | cons c w ih =>
    have hshift : s ++ c :: w = s ++ [c] ++ w := by simp
    rw [hshift] at h
    exact of_concat (hw c (by simp)) (ih (fun a ha => hw a (by simp [ha])) h)

theorem of_blanks {w : List Char} (hw : ∀ c ∈ w, Text.isBlank c = true) : Scans w [] := by
  induction w with
  | nil => exact .nil
  | cons c w ih => exact .blank (hw c (by simp)) (ih fun a ha => hw a (by simp [ha]))

/-- Blanks at the ends of a text do not matter. -/
theorem trim_iff : Scans (Text.trim text) ts ↔ Scans text ts := by
  have hfront : text = text.takeWhile Text.isBlank ++ text.dropWhile Text.isBlank :=
    List.takeWhile_append_dropWhile.symm
  have hblanks : ∀ w : List Char, ∀ c ∈ w.takeWhile Text.isBlank, Text.isBlank c = true :=
    fun w => List.all_eq_true.mp List.all_takeWhile
  have hdrop : Scans (text.dropWhile Text.isBlank) ts ↔ Scans text ts := by
    refine ⟨fun h => ?_, dropWhile_isBlank⟩
    rw [hfront]
    exact (of_blanks (hblanks _)).append h
  rw [← hdrop]
  unfold Text.trim
  generalize text.dropWhile Text.isBlank = t
  have hback : t = (t.reverse.dropWhile Text.isBlank).reverse ++
      (t.reverse.takeWhile Text.isBlank).reverse := by
    rw [← List.reverse_append, List.takeWhile_append_dropWhile, List.reverse_reverse]
  have hend : ∀ c ∈ (t.reverse.takeWhile Text.isBlank).reverse, Text.isBlank c = true :=
    fun c hc => hblanks _ c (List.mem_reverse.mp hc)
  constructor
  · intro h
    rw [hback]
    simpa using h.append (of_blanks hend)
  · intro h
    rw [hback] at h
    exact of_append_blanks hend h

theorem spelled_cons {c : Char} (h : c ≠ '-' ∧ c ≠ '<') (hand : c ≠ '&') (hor : c ≠ '|')
    (hxor : c ≠ '^') (text : List Char) :
    Sentence.spelled (c :: text) = c :: Sentence.spelled text :=
  Sentence.spelled.eq_7 c text (fun _ hc _ => h.2 hc) (fun _ hc _ => h.1 hc) hand hor hxor

/-- No spelling that is replaced by a sign begins with the character. -/
def isSettled (c : Char) : Bool :=
  c ∉ ['-', '<', '&', '|', '^']

theorem isSettled_iff {c : Char} :
    isSettled c = true ↔ (c ≠ '-' ∧ c ≠ '<') ∧ c ≠ '&' ∧ c ≠ '|' ∧ c ≠ '^' := by
  simp [isSettled, and_assoc]

theorem isSettled_of_isBlank {c : Char} (h : Text.isBlank c = true) : isSettled c = true := by
  have hsigns : ['-', '<', '&', '|', '^'].all (fun d => !Text.isBlank d) = true := by decide
  rw [isSettled, decide_eq_true_eq]
  intro hc
  simpa [h] using List.all_eq_true.mp hsigns c hc

theorem spelled_cons_of_isSettled {c : Char} (h : isSettled c = true) (text : List Char) :
    Sentence.spelled (c :: text) = c :: Sentence.spelled text := by
  obtain ⟨harrow, hand, hor, hxor⟩ := isSettled_iff.mp h
  exact spelled_cons harrow hand hor hxor text

/-- A character that is a token by itself is replaced by one that is the same token. -/
theorem exists_spelled_sign {c : Char} {t : Token} (hblank : Text.isBlank c = false)
    (hc : ofChar? c = some t) :
    ∃ d, Text.isBlank d = false ∧ ofChar? d = some t ∧ isSettled d = true ∧
      ∀ text, Sentence.spelled (c :: text) = d :: Sentence.spelled text := by
  by_cases hand : c = '&'
  · subst hand
    exact ⟨'∧', by decide, hc ▸ by decide, by decide, fun _ => rfl⟩
  by_cases hor : c = '|'
  · subst hor
    exact ⟨'∨', by decide, hc ▸ by decide, by decide, fun _ => rfl⟩
  by_cases hxor : c = '^'
  · subst hxor
    exact ⟨'⊕', by decide, hc ▸ by decide, by decide, fun _ => rfl⟩
  have hsettled := isSettled_iff.mpr ⟨ofChar?_ne_arrow hc, hand, hor, hxor⟩
  exact ⟨c, hblank, hc, hsettled, spelled_cons_of_isSettled hsettled⟩

/-- The signs of the connectives may take the place of their ASCII spellings. -/
theorem spelled (h : Scans text ts) : Scans (Sentence.spelled text) ts := by
  have harrow : ofChar? '→' = some (.binary .implies) := by decide
  have hdouble : ofChar? '↔' = some (.binary .iff) := by decide
  induction h with
  | nil => exact .nil
  | arrow _ ih =>
    exact .blank (by decide) (.sign (by decide) harrow (.blank (by decide) ih))
  | doubleArrow _ ih =>
    exact .blank (by decide) (.sign (by decide) hdouble (.blank (by decide) ih))
  | blank hc _ ih =>
    rw [spelled_cons_of_isSettled (isSettled_of_isBlank hc)]
    exact .blank hc ih
  | sign hblank hc _ ih =>
    obtain ⟨d, hd, htoken, -, hspelled⟩ := exists_spelled_sign hblank hc
    rw [hspelled]
    exact .sign hd htoken ih

/-- After that no spelling is left that has a sign. -/
theorem isSettled_spelled (h : Scans text ts) : ∀ c ∈ Sentence.spelled text, isSettled c = true := by
  induction h with
  | nil => exact fun _ hc => nomatch hc
  | arrow _ ih =>
    rw [Sentence.spelled, List.forall_mem_cons, List.forall_mem_cons, List.forall_mem_cons]
    exact ⟨by decide, by decide, by decide, ih⟩
  | doubleArrow _ ih =>
    rw [Sentence.spelled, List.forall_mem_cons, List.forall_mem_cons, List.forall_mem_cons]
    exact ⟨by decide, by decide, by decide, ih⟩
  | blank hblank _ ih =>
    have hsettled := isSettled_of_isBlank hblank
    rw [spelled_cons_of_isSettled hsettled, List.forall_mem_cons]
    exact ⟨hsettled, ih⟩
  | sign hblank hc _ ih =>
    obtain ⟨d, -, -, hsettled, hspelled⟩ := exists_spelled_sign hblank hc
    rw [hspelled, List.forall_mem_cons]
    exact ⟨hsettled, ih⟩

/-- A space may be put before a text. -/
theorem gap (h : Scans text ts) (b : Bool) : Scans ((if b then [' '] else []) ++ text) ts := by
  cases b
  · exact h
  · exact .blank (by decide) h

theorem squeezeFrom_cons {c : Char} (hc : Text.isBlank c = false) (b : Bool) (text : List Char) :
    Text.squeezeFrom b (c :: text) =
      (if b then [' '] else []) ++ c :: Text.squeezeFrom false text := by
  cases b <;> simp [Text.squeezeFrom, hc]

theorem squeezeFrom (h : Scans text ts) (b : Bool) : Scans (Text.squeezeFrom b text) ts := by
  induction h generalizing b with
  | nil => cases b <;> exact .nil
  | arrow _ ih =>
    rw [squeezeFrom_cons (by decide), squeezeFrom_cons (by decide)]
    exact (Scans.arrow (ih false)).gap b
  | doubleArrow _ ih =>
    rw [squeezeFrom_cons (by decide), squeezeFrom_cons (by decide), squeezeFrom_cons (by decide)]
    exact (Scans.doubleArrow (ih false)).gap b
  | blank hc _ ih =>
    rw [Text.squeezeFrom, if_pos hc]
    exact ih true
  | sign hblank hc _ ih =>
    rw [squeezeFrom_cons hblank]
    exact (Scans.sign hblank hc (ih false)).gap b

/-- The canonical spelling of a text has the tokens of the text. -/
theorem canonical (h : Scans text ts) : Scans (Sentence.canonical text) ts :=
  (h.spelled.dropWhile_isBlank).squeezeFrom false

end Scans

theorem Derives.ne_nil {k : Category} {ts : List Token} {f : Formula} (h : Derives k ts f) :
    ts ≠ [] := by
  induction h using Derives.by_level with
  | letter c => simp
  | parens ts f _ _ => simp
  | negation ts f _ _ => simp
  | loosen k ts f _ _ ih => exact ih
  | chain k c ts us f g _ _ _ _ _ _ => simp
  | conditional ts us f g _ _ _ _ => simp

theorem Formula.parse_eq_ok {text : List Char} {f : Formula} :
    Formula.parse text = .ok f ↔ ∃ ts, Scans text ts ∧ Derives .iff ts f := by
  unfold Formula.parse
  constructor
  · intro h
    split at h
    · cases h
    · next ts hts => exact ⟨ts, scan_eq_ok.mp hts, Formula.ofTokens_eq_ok.mp h⟩
  · rintro ⟨ts, hscan, hder⟩
    rw [scan_eq_ok.mpr hscan]
    exact Formula.ofTokens_eq_ok.mpr hder

/-- A text whose tokens derive a formula is read as a sentence with that formula. -/
theorem Sentence.read_of_derives {text : List Char} {ts : List Token} {f : Formula}
    (hscan : Scans text ts) (hder : Derives .iff ts f) :
    Sentence.read text = .ok ⟨Text.trim text, some f, f.letters⟩ := by
  have htrim := Scans.trim_iff.mpr hscan
  have hne : Text.trim text ≠ [] := htrim.ne_nil hder.ne_nil
  rw [Sentence.read, if_neg (by simpa using hne), Formula.parse_eq_ok.mpr ⟨ts, htrim, hder⟩]

/-- A sentence that was read has the formula that the tokens of its text derive. -/
theorem Sentence.derives_of_read {text : List Char} {s : Sentence}
    (h : Sentence.read text = .ok s) :
    ∃ ts f, Scans s.source ts ∧ Derives .iff ts f ∧ s = ⟨Text.trim text, some f, f.letters⟩ := by
  simp only [Sentence.read] at h
  split at h
  · cases h
  · split at h
    · cases h
    · next f hparse =>
      obtain ⟨ts, hscan, hder⟩ := Formula.parse_eq_ok.mp hparse
      cases h
      exact ⟨ts, f, hscan, hder, rfl⟩

/-- A sentence that was read is shown in the canonical spelling of its text. -/
theorem Sentence.text_of_read {text : List Char} {s : Sentence}
    (h : Sentence.read text = .ok s) : s.text = Sentence.canonical s.source := by
  obtain ⟨ts, f, hscan, hder, rfl⟩ := Sentence.derives_of_read h
  rw [Sentence.text, if_neg (by simpa using hscan.ne_nil hder.ne_nil)]

end Sentential
