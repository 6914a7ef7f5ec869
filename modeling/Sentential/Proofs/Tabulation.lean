import Mathlib
import Sentential.Proofs.Counterexamples
import Sentential.Session

/-! What the truth table of a list of sentences holds, and what is read off it. The numbers of its
rows, in binary, spell the assignments: the first letter has the highest place, and a letter is true
where the digit is 0. Every cell of a sentence holds the value of its formula under the assignment of
the row. A column goes through the assignments to the letters of all sentences, and the
classification of its sentence only through those to the sentence's own letters; both come to the
same verdict. -/

namespace Sentential

namespace Formula

/-- The letter occurs in the formula. -/
def Mentions (c : Char) : Formula → Prop
  | letter d => d = c
  | not f => f.Mentions c
  | binary _ f g => f.Mentions c ∨ g.Mentions c

theorem mem_letters_iff_mentions {c : Char} {f : Formula} : c ∈ f.letters ↔ f.Mentions c := by
  induction f with
  | letter d => simp [letters, Mentions, eq_comm]
  | not f ih => exact ih
  | binary _ f g ihf ihg => rw [letters, mem_mergeLetters, ihf, ihg, Mentions]

end Formula

namespace Assignment

/-- The assignment of a row, by the number of the row. -/
def ofRow : List Char → Nat → Assignment Bool
  | [], _ => []
  | c :: rest, k => (c, !k.testBit rest.length) :: ofRow rest k

variable {letters : List Char}

theorem length_ofRow (letters : List Char) (k : Nat) :
    (ofRow letters k).length = letters.length := by
  induction letters with
  | nil => rfl
  | cons c rest ih => rw [ofRow, List.length_cons, List.length_cons, ih]

theorem ofRow_two_pow_add {n : Nat} (h : letters.length ≤ n) (k : Nat) :
    ofRow letters (2 ^ n + k) = ofRow letters k := by
  induction letters with
  | nil => rfl
  | cons c rest ih =>
    rw [List.length_cons] at h
    rw [ofRow, ofRow, Nat.testBit_two_pow_add_gt (by omega), ih (by omega)]

/-- The assignments to the letters are those of the rows, in the order of the rows. -/
theorem assignments_eq_map_ofRow (letters : List Char) :
    assignments letters = (List.range (2 ^ letters.length)).map (ofRow letters) := by
  induction letters with
  | nil => rfl
  | cons c rest ih =>
    -- the lower half of the numbers has the digit 0 in the place of the first letter
    have hlow : ∀ k ∈ List.range (2 ^ rest.length),
        (c, true) :: ofRow rest k = ofRow (c :: rest) k := by
      intro k hk
      rw [ofRow, Nat.testBit_lt_two_pow (List.mem_range.mp hk)]
      rfl
    have hhigh : ∀ k ∈ List.range (2 ^ rest.length),
        (c, false) :: ofRow rest k = ofRow (c :: rest) (2 ^ rest.length + k) := by
      intro k hk
      rw [ofRow, Nat.testBit_two_pow_add_eq, Nat.testBit_lt_two_pow (List.mem_range.mp hk),
        ofRow_two_pow_add (Nat.le_refl _)]
      rfl
    rw [assignments, ih, List.map_map, List.map_map, List.length_cons, Nat.pow_succ, Nat.mul_two,
      List.range_add, List.map_append, List.map_map]
    exact congrArg₂ _ (List.map_congr_left hlow) (List.map_congr_left hhigh)

theorem nodup_assignments (letters : List Char) : (assignments letters).Nodup := by
  induction letters with
  | nil => simp [assignments]
  | cons c rest ih =>
    rw [assignments, List.nodup_append]
    refine ⟨ih.map List.cons_injective, ih.map List.cons_injective, ?_⟩
    rintro _ hlow _ hhigh rfl
    obtain ⟨a, -, ha⟩ := List.mem_map.mp hlow
    obtain ⟨b, -, hb⟩ := List.mem_map.mp hhigh
    have hheads := (List.cons.inj (ha.trans hb.symm)).1
    simp at hheads

theorem getElem?_ofRow {j : Nat} {c : Char} (h : letters[j]? = some c) (k : Nat) :
    (ofRow letters k)[j]? = some (c, !k.testBit (letters.length - 1 - j)) := by
  induction letters generalizing j with
  | nil => simp at h
  | cons d rest ih =>
    cases j with
    | zero =>
      obtain rfl : d = c := by simpa using h
      rfl
    | succ j =>
      rw [List.getElem?_cons_succ] at h
      have hplace : (d :: rest).length - 1 - (j + 1) = rest.length - 1 - j := by
        rw [List.length_cons]
        omega
      rw [ofRow, List.getElem?_cons_succ, ih h, hplace]

theorem ofValuation_inj {v w : Char → Bool} :
    ofValuation v letters = ofValuation w letters ↔ ∀ c ∈ letters, v c = w c := by
  simp [ofValuation]

theorem ofRow_eq_ofValuation {k : Nat} {v : Char → Bool}
    (h : ∀ j c, letters[j]? = some c → v c = !k.testBit (letters.length - 1 - j)) :
    ofRow letters k = ofValuation v letters := by
  apply List.ext_getElem?
  intro j
  rw [ofValuation, List.getElem?_map]
  cases hc : letters[j]? with
  | none =>
    rw [List.getElem?_eq_none_iff] at hc
    rw [List.getElem?_eq_none (by rwa [length_ofRow])]
    rfl
  | some c => rw [getElem?_ofRow hc, Option.map_some, h j c hc]

end Assignment

namespace Table

/-- The cell in a row and a column, by their positions. -/
def cell? (t : Table) (k j : Nat) : Option Value :=
  t.rows[k]?.bind fun row => row[j]?

/-- The truth value that a row of the table gives to a letter. -/
def valuationAt (t : Table) (k : Nat) (c : Char) : Bool :=
  (t.cell? k (t.letters.idxOf c)).any isTrue

/-- The table has a column for each letter that occurs in the sentences and one for each sentence,
and a row for each way to give the letters truth values. -/
structure Tabulates (t : Table) (sentences : List Sentence) : Prop where
  increasing : t.letters.Pairwise (· < ·)
  letters : ∀ c, c ∈ t.letters ↔ ∃ s ∈ sentences, ∃ f, s.formula = some f ∧ f.Mentions c
  rows : t.rows.length = 2 ^ t.letters.length
  headers : t.headers.length = t.letters.length + sentences.length
  width : ∀ row ∈ t.rows, row.length = t.headers.length
  /-- The letters' cells in a row are the digits of the row's number, true for 0. -/
  digits : ∀ k < t.rows.length, ∀ j < t.letters.length,
    t.cell? k j = some (.bool (!k.testBit (t.letters.length - 1 - j)))
  once : ∀ v : Char → Bool, ∃! k, k < t.rows.length ∧ ∀ c ∈ t.letters, t.valuationAt k c = v c
  values : ∀ k < t.rows.length, ∀ i s f, sentences[i]? = some s → s.formula = some f →
    t.cell? k (t.letters.length + i) = some (.bool (f.eval (t.valuationAt k)))

section

variable {sentences : List Sentence}

theorem length_row (sentences : List Sentence) (values : Assignment Bool) :
    (row sentences values).length = values.length + sentences.length := by
  simp [row]

theorem getElem?_row_letter {values : Assignment Bool} {j : Nat} {entry : Char × Bool}
    (h : values[j]? = some entry) : (row sentences values)[j]? = some (.bool entry.2) := by
  have hj : j < values.length := (List.getElem?_eq_some_iff.mp h).1
  rw [row, List.getElem?_append_left (by simpa using hj), List.getElem?_map, h]
  rfl

theorem getElem?_row_sentence {i : Nat} {s : Sentence} (h : sentences[i]? = some s)
    (values : Assignment Bool) :
    (row sentences values)[values.length + i]? = some (cell values s) := by
  have hlength : (values.map fun entry => Value.bool entry.2).length = values.length :=
    List.length_map _
  rw [row, List.getElem?_append_right (by omega), hlength, Nat.add_sub_cancel_left,
    List.getElem?_map, h]
  rfl

end

theorem length_headers (t : Table) : t.headers.length = t.letters.length + t.sentences.length := by
  simp [headers]

/-- The rows of the table are those of the assignments to its letters. -/
def IsFilled (t : Table) : Prop :=
  t.rows = (List.range (2 ^ t.letters.length)).map fun k => row t.sentences (.ofRow t.letters k)

theorem isFilled_ofSentences (sentences : List Sentence) : (ofSentences sentences).IsFilled := by
  rw [IsFilled, ofSentences, Assignment.assignments_eq_map_ofRow, List.map_map]
  rfl

namespace IsFilled

variable {t : Table} {k j : Nat} {c : Char}

theorem length_rows (h : t.IsFilled) : t.rows.length = 2 ^ t.letters.length := by
  rw [h, List.length_map, List.length_range]

theorem length_of_mem (h : t.IsFilled) {row : List Value} (hrow : row ∈ t.rows) :
    row.length = t.headers.length := by
  rw [h] at hrow
  obtain ⟨k, -, rfl⟩ := List.mem_map.mp hrow
  rw [length_row, Assignment.length_ofRow, length_headers]

theorem cell?_eq (h : t.IsFilled) (hk : k < t.rows.length) (j : Nat) :
    t.cell? k j = (row t.sentences (.ofRow t.letters k))[j]? := by
  rw [h.length_rows] at hk
  rw [cell?, h, List.getElem?_map, List.getElem?_range hk]
  rfl

theorem cell?_letter (h : t.IsFilled) (hk : k < t.rows.length) (hc : t.letters[j]? = some c) :
    t.cell? k j = some (.bool (!k.testBit (t.letters.length - 1 - j))) := by
  rw [h.cell?_eq hk, getElem?_row_letter (Assignment.getElem?_ofRow hc k)]

theorem cell?_sentence (h : t.IsFilled) (hk : k < t.rows.length) {i : Nat} {s : Sentence}
    (hs : t.sentences[i]? = some s) :
    t.cell? k (t.letters.length + i) = some (cell (.ofRow t.letters k) s) := by
  rw [h.cell?_eq hk, ← getElem?_row_sentence hs, Assignment.length_ofRow]

section

variable (hnodup : t.letters.Nodup)

include hnodup

theorem valuationAt_eq (h : t.IsFilled) (hk : k < t.rows.length) (hc : t.letters[j]? = some c) :
    t.valuationAt k c = !k.testBit (t.letters.length - 1 - j) := by
  have hplace : t.letters.idxOf c = j := by
    obtain ⟨hj, rfl⟩ := List.getElem?_eq_some_iff.mp hc
    exact hnodup.idxOf_getElem j hj
  rw [valuationAt, hplace, h.cell?_letter hk hc]
  rfl

/-- The assignment of a row is the one that its cells show. -/
theorem ofRow_eq (h : t.IsFilled) (hk : k < t.rows.length) :
    Assignment.ofRow t.letters k = .ofValuation (t.valuationAt k) t.letters :=
  Assignment.ofRow_eq_ofValuation fun _ _ hc => h.valuationAt_eq hnodup hk hc

theorem cell_eq (h : t.IsFilled) (hk : k < t.rows.length) {s : Sentence} (hread : s.IsRead)
    (hletters : ∀ c ∈ s.letters, c ∈ t.letters) {f : Formula} (hf : s.formula = some f) :
    cell (.ofRow t.letters k) s = .bool (f.eval (t.valuationAt k)) := by
  have hown := hread.letters_eq hf
  rw [h.ofRow_eq hnodup hk]
  have hcovers : (Assignment.ofValuation (t.valuationAt k) t.letters).Covers s.letters :=
    Assignment.covers_of_subset (Assignment.ofValuation_mem _ _) hletters
  have hsame : f.eval (Assignment.ofValuation (t.valuationAt k) t.letters).valuation =
      f.eval (t.valuationAt k) :=
    Formula.eval_congr fun c hc => Assignment.valuation_ofValuation (hletters c (hown ▸ hc))
  rw [cell, Sentence.evaluate_of_covers hf hcovers (hown ▸ hcovers), hsame]

/-- Each way to give the letters truth values is that of one row. -/
theorem existsUnique_row (h : t.IsFilled) (v : Char → Bool) :
    ∃! k, k < t.rows.length ∧ ∀ c ∈ t.letters, t.valuationAt k c = v c := by
  have hshows : ∀ k < t.rows.length, (∀ c ∈ t.letters, t.valuationAt k c = v c) ↔
      Assignment.ofRow t.letters k = .ofValuation v t.letters := by
    intro k hk
    rw [h.ofRow_eq hnodup hk, Assignment.ofValuation_inj]
  have hin := Assignment.ofValuation_mem v t.letters
  have honce := Assignment.nodup_assignments t.letters
  rw [Assignment.assignments_eq_map_ofRow, ← h.length_rows] at hin honce
  obtain ⟨k, hk, hrow⟩ := List.mem_map.mp hin
  have hk' := List.mem_range.mp hk
  refine ⟨k, ⟨hk', (hshows k hk').mpr hrow⟩, fun l ⟨hl, hsame⟩ => ?_⟩
  refine List.inj_on_of_nodup_map honce (List.mem_range.mpr hl) hk ?_
  rw [(hshows l hl).mp hsame, hrow]

end

end IsFilled

section

variable {sentences : List Sentence}

theorem mem_letters_ofSentences {i : Nat} {s : Sentence} (hs : sentences[i]? = some s) :
    ∀ c ∈ s.letters, c ∈ (ofSentences sentences).letters :=
  fun _ hc => Sentence.mem_lettersOf.mpr ⟨s, List.mem_of_getElem? hs, hc⟩

theorem tabulates_ofSentences (hread : ∀ s ∈ sentences, s.IsRead) :
    (ofSentences sentences).Tabulates sentences := by
  have hfilled := isFilled_ofSentences sentences
  have hnodup : (ofSentences sentences).letters.Nodup := Sentence.nodup_lettersOf sentences
  refine ⟨Sentence.pairwise_lettersOf sentences, fun c => ?_, hfilled.length_rows,
    length_headers _, fun row hrow => hfilled.length_of_mem hrow, fun k hk j hj => ?_,
    hfilled.existsUnique_row hnodup, fun k hk i s f hs hf => ?_⟩
  · refine Sentence.mem_lettersOf.trans (exists_congr fun s => and_congr_right fun hs => ?_)
    obtain ⟨f, hf, hletters⟩ := (hread s hs).formula
    simp [hletters, hf, Formula.mem_letters_iff_mentions]
  · exact hfilled.cell?_letter hk (List.getElem?_eq_getElem hj)
  · have hsame := hfilled.cell_eq hnodup hk (hread s (List.mem_of_getElem? hs))
      (mem_letters_ofSentences hs) hf
    exact (hfilled.cell?_sentence hk hs).trans (congrArg some hsame)

/-- What succeeds on each member of a list succeeds on the list. -/
theorem mapM_eq_ok {α β ε : Type} {f : α → Except ε β} {g : α → β} {l : List α}
    (h : ∀ a ∈ l, f a = .ok (g a)) : l.mapM f = .ok (l.map g) := by
  induction l with
  | nil => rfl
  | cons a rest ih =>
    rw [List.mapM_cons, h a (by simp), ih fun b hb => h b (by simp [hb])]
    rfl

theorem ofContents?_sentences (hne : sentences ≠ []) :
    ofContents? (sentences.map .sentence) = .ok (some (ofSentences sentences)) := by
  have hletters : (sentences.map Content.sentence).mapM Content.withLetters = .ok sentences := by
    rw [List.mapM_map]
    exact (mapM_eq_ok (g := id) fun _ _ => rfl).trans (congrArg Except.ok (List.map_id _))
  rw [ofContents?, if_neg (by simpa using hne), hletters]

theorem tabulate_sentences (hne : sentences ≠ []) (session : Session) :
    session.tabulate (sentences.map .sentence) =
      ({ session with table := some (ofSentences sentences) },
        .ok (some (ofSentences sentences))) := by
  rw [Session.tabulate, ofContents?_sentences hne]

end

/-- From any list of sentences, at least one, a table is made. It has the letters that occur in them
in increasing order, a row for each way to give these truth values, in binary order, and the value
of each sentence in each row. -/
theorem tabulate_fills_table {sentences : List Sentence} (hne : sentences ≠ [])
    (hread : ∀ s ∈ sentences, s.IsRead) (session : Session) :
    ∃ t, session.tabulate (sentences.map .sentence) =
        ({ session with table := some t }, .ok (some t)) ∧
      Session.tableReport (some t) =
        (true, s!"Generated truth table with {2 ^ t.letters.length} rows") ∧
      t.Tabulates sentences := by
  have htable := tabulates_ofSentences hread
  refine ⟨ofSentences sentences, tabulate_sentences hne session, ?_, htable⟩
  exact congrArg (fun n : Nat => (true, s!"Generated truth table with {n} rows")) htable.rows

theorem tabulate_fills_table_of_conditional :
    let p : Sentence :=
      ⟨"C → A".toList, some (.binary .implies (.letter 'C') (.letter 'A')), ['A', 'C']⟩
    let q : Sentence := ⟨"¬A".toList, some (.not (.letter 'A')), ['A']⟩
    Sentence.read p.source = .ok p ∧ Sentence.read q.source = .ok q ∧
      ∃ t, (({} : Session).tabulate [.sentence p, .sentence q]).2 = .ok (some t) ∧
        t.letters = ['A', 'C'] ∧ t.Tabulates [p, q] := by
  intro p q
  obtain ⟨hp, hq⟩ : Sentence.read p.source = .ok p ∧ Sentence.read q.source = .ok q := by
    unfold p q
    constructor
    · cbv
    · cbv
  have hread : ∀ s ∈ [p, q], s.IsRead := by
    simp only [List.forall_mem_cons]
    exact ⟨⟨_, hp⟩, ⟨_, hq⟩, List.forall_mem_nil _⟩
  obtain ⟨t, hmade, -, htable⟩ := tabulate_fills_table (List.cons_ne_nil p [q]) hread {}
  refine ⟨hp, hq, t, congrArg Prod.snd hmade, ?_, htable⟩
  have hsame : some (ofSentences [p, q]) = some t := congrArg (fun made => made.1.table) hmade
  rw [← Option.some.inj hsame]
  rfl

theorem place?_of_lt {length n : Nat} (h : n < length) : place? length n = some n := by
  simp [place?, h]

section

variable {t : Table} {i : Nat} {s : Sentence}

theorem cellAt_row (hs : t.sentences[i]? = some s) (k : Nat) :
    t.cellAt i (row t.sentences (.ofRow t.letters k)) = .ok (cell (.ofRow t.letters k) s) := by
  have hi : i < t.sentences.length := (List.getElem?_eq_some_iff.mp hs).1
  have hplace : place? (row t.sentences (.ofRow t.letters k)).length (t.letters.length + i) =
      some (t.letters.length + i) := by
    rw [length_row, Assignment.length_ofRow]
    exact_mod_cast place?_of_lt (by omega)
  have hcell := getElem?_row_sentence hs (.ofRow t.letters k)
  rw [Assignment.length_ofRow] at hcell
  simp only [cellAt, hplace, List.getD_eq_getElem?_getD, hcell, Option.getD_some]

theorem mapM_cellAt (h : t.IsFilled) (hs : t.sentences[i]? = some s) :
    t.rows.mapM (t.cellAt i) =
      .ok ((List.range t.rows.length).map fun k => cell (.ofRow t.letters k) s) := by
  rw [h.length_rows, h, List.mapM_map]
  exact mapM_eq_ok fun k _ => cellAt_row hs k

theorem isBeyond_eq_false (hs : t.sentences[i]? = some s) : t.isBeyond i = false := by
  have hi : i < t.sentences.length := (List.getElem?_eq_some_iff.mp hs).1
  simpa [isBeyond] using hi

theorem isTrue_cell (values : Assignment Bool) (s : Sentence) :
    isTrue (cell values s) = s.holdsUnder values := by
  unfold cell Sentence.holdsUnder
  cases s.evaluate values <;> rfl

theorem isFalse_cell (values : Assignment Bool) (s : Sentence) :
    isFalse (cell values s) = s.failsUnder values := by
  unfold cell Sentence.failsUnder
  cases s.evaluate values <;> rfl

/-- A check of the cells of a column is a check of the assignments to the letters of the table. -/
theorem all_column (h : t.IsFilled) (check : Value → Bool) (s : Sentence) :
    ((List.range t.rows.length).map fun k => cell (.ofRow t.letters k) s).all check =
      (assignments t.letters).all fun values => check (cell values s) := by
  rw [h.length_rows, Assignment.assignments_eq_map_ofRow, List.all_map, List.all_map]
  rfl

theorem isTautology_eq (h : t.IsFilled) (hs : t.sentences[i]? = some s) :
    t.isTautology i = .ok (s.isTautologyOver t.letters) := by
  simp only [isTautology, isBeyond_eq_false hs, mapM_cellAt h hs, all_column h, isTrue_cell]
  rfl

theorem isContradiction_eq (h : t.IsFilled) (hs : t.sentences[i]? = some s) :
    t.isContradiction i = .ok (s.isContradictionOver t.letters) := by
  simp only [isContradiction, isBeyond_eq_false hs, mapM_cellAt h hs, all_column h, isFalse_cell]
  rfl

theorem rowsWhereTrue_eq (h : t.IsFilled) (hs : t.sentences[i]? = some s) :
    t.rowsWhereTrue i = .ok ((List.range t.rows.length).filter fun k =>
      isTrue (cell (.ofRow t.letters k) s)) := by
  have hnumbered : ((List.range t.rows.length).map fun k => cell (.ofRow t.letters k) s).zipIdx =
      (List.range t.rows.length).map fun k => (cell (.ofRow t.letters k) s, k) := by
    apply List.ext_getElem
    · simp
    · simp
  simp only [rowsWhereTrue, isBeyond_eq_false hs, mapM_cellAt h hs, hnumbered, List.filter_map,
    List.map_map]
  exact congrArg Except.ok (List.map_id _)

end

/-- In a table of sentences the column of a sentence is found to be all true or all false exactly if
the sentence is classified so, in whatever order its letters are taken, and the rows found to make
the sentence true are, in increasing order, those whose assignment does so. -/
theorem columns_agree_with_classification {sentences : List Sentence}
    (hread : ∀ s ∈ sentences, s.IsRead) {i : Nat} {s : Sentence} (hs : sentences[i]? = some s)
    {letters : List Char} (horder : letters.Perm s.letters) (session : Session) :
    let made := (session.tabulate (sentences.map .sentence)).1
    made.isTautology i = .ok (s.isTautologyOver letters) ∧
    made.isContradiction i = .ok (s.isContradictionOver letters) ∧
    ∃ t rows, made.table = some t ∧ made.rowsWhereTrue i = .ok rows ∧ rows.Pairwise (· < ·) ∧
      ∀ k, k ∈ rows ↔ k < t.rows.length ∧ s.IsTrue (t.valuationAt k) := by
  intro made
  have hne : sentences ≠ [] := by
    rintro rfl
    cases hs
  have hmade : made.table = some (ofSentences sentences) := by
    simp only [made, tabulate_sentences hne]
  have hfilled := isFilled_ofSentences sentences
  have hs' : s.IsRead := hread s (List.mem_of_getElem? hs)
  have hown : ∀ c ∈ s.letters, c ∈ letters := fun c hc => horder.mem_iff.mpr hc
  have hall := mem_letters_ofSentences hs
  refine ⟨?_, ?_, ofSentences sentences, (List.range (ofSentences sentences).rows.length).filter
    fun k => isTrue (cell (.ofRow (ofSentences sentences).letters k) s), hmade, ?_, ?_, fun k => ?_⟩
  · rw [Session.isTautology, hmade]
    refine (isTautology_eq hfilled hs).trans (congrArg Except.ok ?_)
    rw [Bool.eq_iff_iff, Sentence.isTautologyOver_iff hs' hall,
      Sentence.isTautologyOver_iff hs' hown]
  · rw [Session.isContradiction, hmade]
    refine (isContradiction_eq hfilled hs).trans (congrArg Except.ok ?_)
    rw [Bool.eq_iff_iff, Sentence.isContradictionOver_iff hs' hall,
      Sentence.isContradictionOver_iff hs' hown]
  · rw [Session.rowsWhereTrue, hmade]
    exact rowsWhereTrue_eq hfilled hs
  · exact List.pairwise_lt_range.filter _
  · rw [List.mem_filter, List.mem_range]
    refine and_congr_right fun hk => ?_
    obtain ⟨f, hf, -⟩ := hs'.formula
    rw [hfilled.cell_eq (Sentence.nodup_lettersOf sentences) hk hs' hall hf,
      Sentence.isTrue_iff hf]
    rfl

theorem columns_agree_with_classification_of_negation :
    let p : Sentence :=
      ⟨"C → A".toList, some (.binary .implies (.letter 'C') (.letter 'A')), ['A', 'C']⟩
    let q : Sentence := ⟨"¬A".toList, some (.not (.letter 'A')), ['A']⟩
    let made := (({} : Session).tabulate [.sentence p, .sentence q]).1
    Sentence.read p.source = .ok p ∧ Sentence.read q.source = .ok q ∧
      made.isTautology 1 = .ok (q.isTautologyOver ['A']) ∧ made.rowsWhereTrue 1 = .ok [2, 3] ∧
      ∃ t, made.table = some t ∧
        ∀ k, k ∈ [2, 3] ↔ k < t.rows.length ∧ q.IsTrue (t.valuationAt k) := by
  intro p q made
  obtain ⟨hp, hq⟩ : Sentence.read p.source = .ok p ∧ Sentence.read q.source = .ok q := by
    unfold p q
    constructor
    · cbv
    · cbv
  have hread : ∀ s ∈ [p, q], s.IsRead := by
    simp only [List.forall_mem_cons]
    exact ⟨⟨_, hp⟩, ⟨_, hq⟩, List.forall_mem_nil _⟩
  have hrows : made.rowsWhereTrue 1 = .ok [2, 3] := rfl
  obtain ⟨htautology, -, t, rows, ht, hfound, -, hmem⟩ :=
    columns_agree_with_classification hread (i := 1) (s := q) rfl (List.Perm.refl ['A']) {}
  obtain rfl : [2, 3] = rows := Except.ok.inj (hrows.symm.trans hfound)
  exact ⟨hp, hq, htautology, hrows, t, ht, hmem⟩

end Table

end Sentential
