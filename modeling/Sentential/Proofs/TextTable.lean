import Mathlib
import Sentential.Proofs.CanonicalText
import Sentential.Proofs.Drafts
import Sentential.Proofs.Tabulation
import Sentential.Table.Document

/-! The text of a table. The text is made of pieces that are each ended by a mark: of lines that are
ended by line breaks, and the lines of cells that are ended by bars. What is made so can be divided
at the marks again if no piece has the mark in it, and two lines with pieces of the same lengths
have their marks at the same places. A cell is blanks around a text; no header and no truth value has a
bar, a line break or blanks at its ends, so that each comes back when the blanks are taken away. -/

namespace Sentential

namespace Text

/-- The pieces, each with the mark after it. -/
def ended (mark : Char) (pieces : List (List Char)) : List Char :=
  pieces.flatMap fun piece => piece ++ [mark]

section

variable {mark mark' : Char} {piece : List Char} {pieces pieces' : List (List Char)}

theorem ended_cons : ended mark (piece :: pieces) = piece ++ mark :: ended mark pieces := by
  simp [ended]

theorem splitOn_ended (h : ∀ piece ∈ pieces, mark ∉ piece) :
    (ended mark pieces).splitOn mark = pieces ++ [[]] := by
  induction pieces with
  | nil => rfl
  | cons piece pieces ih =>
    obtain ⟨hpiece, hpieces⟩ := List.forall_mem_cons.mp h
    rw [ended_cons, List.splitOn_append_cons_self_of_not_mem hpiece, ih hpieces, List.cons_append]

theorem not_mem_ended {c : Char} (hc : c ≠ mark) (h : ∀ piece ∈ pieces, c ∉ piece) :
    c ∉ ended mark pieces := by
  simp only [ended, List.mem_flatMap, List.mem_append, List.mem_singleton]
  rintro ⟨piece, hpiece, hin | hin⟩
  · exact h piece hpiece hin
  · exact hc hin

theorem length_ended (mark : Char) (pieces : List (List Char)) :
    (ended mark pieces).length = ((pieces.map List.length).map (· + 1)).sum := by
  simp [ended, List.length_flatMap, Function.comp_def]

/-- If the pieces are as long, the marks stand at the same places. -/
theorem getElem?_ended_iff (h : pieces.map List.length = pieces'.map List.length)
    (hmark : ∀ piece ∈ pieces, mark ∉ piece) (hmark' : ∀ piece ∈ pieces', mark' ∉ piece) (i : Nat) :
    (ended mark pieces)[i]? = some mark ↔ (ended mark' pieces')[i]? = some mark' := by
  induction pieces generalizing pieces' i with
  | nil =>
    obtain rfl : pieces' = [] := by simpa using h.symm
    simp [ended]
  | cons piece pieces ih =>
    cases pieces' with
    | nil => cases h
    | cons piece' pieces' =>
      obtain ⟨hlength, hlengths⟩ : piece.length = piece'.length ∧
          pieces.map List.length = pieces'.map List.length := by simpa using h
      obtain ⟨hpiece, hpieces⟩ := List.forall_mem_cons.mp hmark
      obtain ⟨hpiece', hpieces'⟩ := List.forall_mem_cons.mp hmark'
      rw [ended_cons, ended_cons]
      rcases Nat.lt_trichotomy i piece.length with hi | rfl | hi
      · -- inside the first piece neither line has its mark
        rw [List.getElem?_append_left hi, List.getElem?_append_left (hlength ▸ hi)]
        exact ⟨fun hin => absurd (List.mem_of_getElem? hin) hpiece,
          fun hin => absurd (List.mem_of_getElem? hin) hpiece'⟩
      · rw [List.getElem?_append_right (Nat.le_refl _), List.getElem?_append_right hlength.ge,
          Nat.sub_self, hlength, Nat.sub_self]
        simp
      · rw [List.getElem?_append_right hi.le, List.getElem?_append_right (hlength ▸ hi.le),
          ← hlength]
        obtain ⟨j, hj⟩ : ∃ j, i - piece.length = j + 1 := ⟨i - piece.length - 1, by omega⟩
        rw [hj, List.getElem?_cons_succ, List.getElem?_cons_succ]
        exact ih hlengths hpieces hpieces' j

end

theorem toList_concat (strings : List String) :
    (strings.foldr (· ++ ·) "").toList = strings.flatMap String.toList := by
  induction strings with
  | nil => rfl
  | cons s rest ih => rw [List.foldr_cons, String.toList_append, ih, List.flatMap_cons]

theorem toList_lines (rows : List String) :
    (lines rows).toList = ended '\n' (rows.map String.toList) := by
  induction rows with
  | nil => rfl
  | cons row rest ih =>
    rw [List.map_cons, ended_cons, ← ih]
    simp [lines]

/-- A text in the middle of the width, with a space on either side. -/
def boxed (width : Nat) (text : List Char) : List Char :=
  ' ' :: (centre width text ++ [' '])

section

variable {width : Nat} {text blanks : List Char}

theorem length_boxed (h : text.length ≤ width) : (boxed width text).length = width + 2 := by
  simp only [boxed, centre, spaces, List.length_cons, List.length_append, List.length_replicate,
    List.length_nil]
  omega

theorem mem_boxed {c : Char} (h : c ∈ boxed width text) : c = ' ' ∨ c ∈ text := by
  simp only [boxed, centre, spaces, List.mem_cons, List.mem_append, List.mem_replicate,
    List.not_mem_nil] at h
  tauto

theorem trim_blanks_append (h : ∀ c ∈ blanks, isBlank c = true) :
    trim (blanks ++ text) = trim text := by
  rw [trim, List.dropWhile_append_of_pos h, trim]

theorem trim_append_blanks (h : ∀ c ∈ blanks, isBlank c = true) :
    trim (text ++ blanks) = trim text := by
  have hback : ∀ c ∈ blanks.reverse, isBlank c = true := fun c hc => h c (List.mem_reverse.mp hc)
  have hnone : blanks.dropWhile isBlank = [] := List.dropWhile_eq_nil_iff.mpr h
  simp only [trim, List.dropWhile_append]
  split
  · next hempty => rw [hnone, List.isEmpty_iff.mp hempty]
  · rw [List.reverse_append, List.dropWhile_append_of_pos hback]

theorem isBlank_spaces {n : Nat} : ∀ c ∈ spaces n, isBlank c = true := by
  intro c hc
  obtain rfl := List.eq_of_mem_replicate hc
  decide

theorem trim_boxed : trim (boxed width text) = trim text := by
  have hspace : ∀ c ∈ [' '], isBlank c = true := by simp [isBlank, blankCodes]
  have hbox : boxed width text = [' '] ++ (centre width text ++ [' ']) := rfl
  rw [hbox, trim_blanks_append hspace, trim_append_blanks hspace, centre,
    trim_append_blanks isBlank_spaces, trim_blanks_append isBlank_spaces]

end

/-- A text that can stand in a table: neither a bar nor a line break is in it, nor a blank at its
ends. -/
structure Cell (text : List Char) : Prop where
  trimmed : trim text = text
  bar : '|' ∉ text
  newline : '\n' ∉ text

theorem isBlank_of_mem_squeezeFrom {b : Bool} {text : List Char} {a : Char}
    (h : a ∈ squeezeFrom b text) : a = ' ' ∨ isBlank a = false := by
  induction text generalizing b with
  | nil => cases b <;> cases h
  | cons c rest ih =>
    by_cases hc : isBlank c = true
    · rw [squeezeFrom_blank hc] at h
      exact ih h
    · rw [Bool.not_eq_true] at hc
      rw [Scans.squeezeFrom_cons hc, List.mem_append, List.mem_cons] at h
      rcases h with h | rfl | h
      · cases b with
        | false => cases h
        | true => exact .inl (List.mem_singleton.mp h)
      · exact .inr hc
      · exact ih h

theorem Neat.cell {text : List Char} (h : Neat text) : Cell text := by
  refine ⟨h.trim, fun hbar => ?_, fun hnewline => ?_⟩
  · exact absurd (h.settled _ hbar) (by decide)
  · rw [← h.squeezed] at hnewline
    obtain hspace | hnot := isBlank_of_mem_squeezeFrom hnewline
    · exact absurd hspace (by decide)
    · exact absurd hnot (by decide)

theorem cell_of_isCapital {c : Char} (h : isCapital c = true) : Cell [c] := by
  have hblank : isBlank c = false := by
    cases Formula.scans_letter h with
    | blank _ hscan => cases hscan
    | sign hblank _ _ => exact hblank
  refine ⟨by simp [trim, hblank], ?_, ?_⟩
  · rw [List.mem_singleton]
    rintro rfl
    exact absurd h (by decide)
  · rw [List.mem_singleton]
    rintro rfl
    exact absurd hblank (by decide)

/-- The cells stand in columns of the given widths. -/
def Fit (widths : List Nat) (cells : List (List Char)) : Prop :=
  List.Forall₂ (fun w cell => cell.length ≤ w ∧ Cell cell) widths cells

namespace Fit

variable {widths : List Nat} {cells : List (List Char)}

theorem map_length_boxed (h : Fit widths cells) :
    (List.zipWith boxed widths cells).map List.length = widths.map (· + 2) := by
  induction h with
  | nil => rfl
  | cons hcell _ ih =>
    rw [List.zipWith_cons_cons, List.map_cons, List.map_cons, length_boxed hcell.1, ih]

theorem map_trim_boxed (h : Fit widths cells) :
    (List.zipWith boxed widths cells).map trim = cells := by
  induction h with
  | nil => rfl
  | cons hcell _ ih =>
    rw [List.zipWith_cons_cons, List.map_cons, trim_boxed, hcell.2.trimmed, ih]

theorem not_mem_boxed (h : Fit widths cells) :
    ∀ box ∈ List.zipWith boxed widths cells, '|' ∉ box ∧ '\n' ∉ box := by
  induction h with
  | nil => simp
  | cons hcell _ ih =>
    rw [List.zipWith_cons_cons, List.forall_mem_cons]
    refine ⟨⟨fun hbar => ?_, fun hnewline => ?_⟩, ih⟩
    · exact (mem_boxed hbar).elim (by decide) hcell.2.bar
    · exact (mem_boxed hnewline).elim (by decide) hcell.2.newline

end Fit

end Text

namespace Table

open Text (ended boxed Fit)

theorem toList_barred (widths : List Nat) (cells : List String) :
    (barred widths cells).toList =
      ended '|' ([] :: List.zipWith boxed widths (cells.map String.toList)) := by
  have hcell (w : Nat) (cell : String) :
      (" " ++ String.ofList (Text.centre w cell.toList) ++ " |").toList =
        boxed w cell.toList ++ ['|'] := by
    simp [boxed]
  rw [barred, String.toList_append, Text.toList_concat, Text.ended_cons, ended, List.flatMap_def,
    List.flatMap_def, List.map_zipWith, List.map_zipWith, List.zipWith_map_right]
  simp only [hcell]
  rfl

theorem toList_separator (widths : List Nat) :
    (separator widths).toList =
      ended '+' ([] :: widths.map fun w => List.replicate (w + 2) '-') := by
  rw [separator, String.toList_append, Text.toList_concat, Text.ended_cons, ended, List.flatMap_map,
    List.flatMap_map]
  simp [Text.ruled]

/-- The pieces of the separator are dashes. -/
theorem not_mem_dashes {c : Char} (h : c ≠ '-') (widths : List Nat) :
    ∀ piece ∈ [] :: widths.map fun w => List.replicate (w + 2) '-', c ∉ piece := by
  simp [List.mem_replicate, h]

theorem newline_not_mem_separator (widths : List Nat) : '\n' ∉ (separator widths).toList := by
  rw [toList_separator]
  exact Text.not_mem_ended (by decide) (not_mem_dashes (by decide) widths)

theorem le_foldl_max {a n : Nat} {l : List Nat} (h : n ∈ a :: l) : n ≤ l.foldl max a := by
  induction l generalizing a n with
  | nil => exact (List.mem_singleton.mp h).le
  | cons b l ih =>
    rw [List.foldl_cons]
    have hfirst : max a b ≤ l.foldl max (max a b) := ih List.mem_cons_self
    obtain rfl | rfl | h : n = a ∨ n = b ∨ n ∈ l := by simpa using h
    · omega
    · omega
    · exact ih (List.mem_cons_of_mem _ h)

theorem length_header_le (t : Table) (header : String) (j : Nat) :
    header.length ≤ t.width header j :=
  le_foldl_max List.mem_cons_self

theorem length_mark_le {t : Table} {row : List Value} (hrow : row ∈ t.rows) {j : Nat} {v : Value}
    (hv : row[j]? = some v) (header : String) : (mark v).length ≤ t.width header j := by
  refine le_foldl_max (List.mem_cons_of_mem _ (List.mem_map.mpr ⟨row, hrow, ?_⟩))
  rw [hv]
  rfl

theorem fit_headers {t : Table} (h : ∀ header ∈ t.headers, Text.Cell header.toList) :
    Fit t.widths (t.headers.map String.toList) := by
  refine List.forall₂_iff_get.mpr ⟨by simp [widths], fun i h₁ h₂ => ?_⟩
  have hi : i < t.headers.length := by simpa using h₂
  simp only [widths, List.get_eq_getElem, List.getElem_map, List.getElem_zipIdx,
    String.length_toList]
  exact ⟨length_header_le _ _ _, h _ (List.getElem_mem hi)⟩

theorem fit_row {t : Table} {row : List Value} (hrow : row ∈ t.rows)
    (hlength : row.length = t.headers.length) (h : ∀ v ∈ row, Text.Cell (mark v).toList) :
    Fit t.widths ((row.map mark).map String.toList) := by
  refine List.forall₂_iff_get.mpr ⟨by simp [widths, hlength], fun i h₁ h₂ => ?_⟩
  have hi : i < row.length := by simpa using h₂
  simp only [widths, List.get_eq_getElem, List.getElem_map, List.getElem_zipIdx,
    String.length_toList, Nat.zero_add]
  exact ⟨length_mark_le hrow (List.getElem?_eq_getElem hi) _, h _ (List.getElem_mem hi)⟩

/-- The pieces of a line between its bars, without the blanks around them. -/
def betweenBars (line : List Char) : List (List Char) :=
  (line.splitOn '|').map Text.trim

/-- The lines are as long as the separator and have their bars where it has its plus signs. -/
structure Aligned (separator : List Char) (lines : List (List Char)) : Prop where
  length : ∀ l ∈ lines, l.length = separator.length
  bars : ∀ l ∈ lines, ∀ i : Nat, l[i]? = some '|' ↔ separator[i]? = some '+'

section

variable {widths : List Nat} {cells : List String} (h : Fit widths (cells.map String.toList))

include h

theorem bar_not_mem_boxes :
    ∀ piece ∈ [] :: List.zipWith boxed widths (cells.map String.toList), '|' ∉ piece :=
  List.forall_mem_cons.mpr ⟨List.not_mem_nil, fun box hbox => (h.not_mem_boxed box hbox).1⟩

theorem betweenBars_barred :
    betweenBars (barred widths cells).toList = [[]] ++ cells.map String.toList ++ [[]] := by
  rw [betweenBars, toList_barred, Text.splitOn_ended (bar_not_mem_boxes h), List.map_append,
    List.map_cons, h.map_trim_boxed]
  rfl

theorem newline_not_mem_barred : '\n' ∉ (barred widths cells).toList := by
  rw [toList_barred]
  refine Text.not_mem_ended (by decide) ?_
  exact List.forall_mem_cons.mpr
    ⟨List.not_mem_nil, fun box hbox => (h.not_mem_boxed box hbox).2⟩

theorem map_length_boxes :
    ([] :: List.zipWith boxed widths (cells.map String.toList)).map List.length =
      ([] :: widths.map fun w => List.replicate (w + 2) '-').map List.length := by
  rw [List.map_cons, List.map_cons, h.map_length_boxed, List.map_map]
  simp [Function.comp_def]

theorem length_barred :
    (barred widths cells).toList.length = (separator widths).toList.length := by
  rw [toList_barred, toList_separator, Text.length_ended, Text.length_ended, map_length_boxes h]

theorem bars_barred (i : Nat) :
    (barred widths cells).toList[i]? = some '|' ↔ (separator widths).toList[i]? = some '+' := by
  rw [toList_barred, toList_separator]
  exact Text.getElem?_ended_iff (map_length_boxes h) (bar_not_mem_boxes h)
    (not_mem_dashes (by decide) widths) i

end

/-- The lines of the text of a table whose headers and cells stand in their columns. -/
theorem splitOn_toText {t : Table} (hheaders : Fit t.widths (t.headers.map String.toList))
    (hrows : ∀ row ∈ t.rows, Fit t.widths ((row.map mark).map String.toList)) :
    t.toText.toList.splitOn '\n' =
      ["TRUTH TABLE".toList, List.replicate 80 '=', [], (barred t.widths t.headers).toList,
        (separator t.widths).toList] ++
      t.rows.map (fun row => (barred t.widths (row.map mark)).toList) ++
      [(separator t.widths).toList, []] := by
  have htitle : '\n' ∉ "TRUTH TABLE".toList := by decide
  have hrule : '\n' ∉ (Text.ruled 80 '=').toList := by simp [Text.ruled]
  rw [toText, Text.toList_lines, Text.splitOn_ended]
  · simp [Text.ruled]
  · have hlines : ∀ row ∈ t.rows, '\n' ∉ (barred t.widths (row.map mark)).toList :=
      fun row hrow => newline_not_mem_barred (hrows row hrow)
    simp only [List.map_append, List.map_cons, List.map_nil, List.map_map, List.forall_mem_append,
      List.forall_mem_cons, List.forall_mem_map]
    have hseparator := newline_not_mem_separator t.widths
    exact ⟨⟨⟨htitle, hrule, by simp, newline_not_mem_barred hheaders, hseparator, by simp⟩, hlines⟩,
      hseparator, by simp⟩

/-- All lines that have bars are aligned with the separator. -/
theorem aligned_lines {t : Table} (hheaders : Fit t.widths (t.headers.map String.toList))
    (hrows : ∀ row ∈ t.rows, Fit t.widths ((row.map mark).map String.toList)) :
    Aligned (separator t.widths).toList ((barred t.widths t.headers).toList ::
      t.rows.map fun row => (barred t.widths (row.map mark)).toList) where
  length := by
    rw [List.forall_mem_cons, List.forall_mem_map]
    exact ⟨length_barred hheaders, fun row hrow => length_barred (hrows row hrow)⟩
  bars := by
    rw [List.forall_mem_cons, List.forall_mem_map]
    exact ⟨bars_barred hheaders, fun row hrow => bars_barred (hrows row hrow)⟩

theorem toList_mark_bool (b : Bool) : (mark (.bool b)).toList = [if b then 'T' else 'F'] := by
  cases b <;> decide

theorem cell_mark_bool (b : Bool) : Text.Cell (mark (.bool b)).toList := by
  cases b <;> exact ⟨by decide, by decide, by decide⟩

section

variable {sentences : List Sentence} (hread : ∀ s ∈ sentences, s.IsRead)

include hread

theorem cell_of_header :
    ∀ header ∈ (ofSentences sentences).headers, Text.Cell header.toList := by
  intro header hheader
  obtain hletter | hsentence := List.mem_append.mp hheader
  · obtain ⟨c, hc, rfl⟩ := List.mem_map.mp hletter
    obtain ⟨s, hs, hcs⟩ := Sentence.mem_lettersOf.mp hc
    obtain ⟨text, htext⟩ := hread s hs
    obtain ⟨ts, f, hscan, hder, rfl⟩ := Sentence.derives_of_read htext
    have hcell := Text.cell_of_isCapital (hscan.isCapital (hder.letter_mem hcs))
    simpa using hcell
  · obtain ⟨s, hs, rfl⟩ := List.mem_map.mp hsentence
    rw [Sentence.shown, String.toList_ofList]
    exact (hread s hs).neat_text.cell

theorem exists_bool_of_mem {row : List Value} (hrow : row ∈ (ofSentences sentences).rows)
    {v : Value} (hv : v ∈ row) : ∃ b, .bool b = v := by
  have hfilled := isFilled_ofSentences sentences
  have hnodup : (ofSentences sentences).letters.Nodup := Sentence.nodup_lettersOf sentences
  rw [hfilled] at hrow
  obtain ⟨k, hk, rfl⟩ := List.mem_map.mp hrow
  rw [List.mem_range, ← hfilled.length_rows] at hk
  obtain hletter | hsentence := List.mem_append.mp hv
  · obtain ⟨entry, -, rfl⟩ := List.mem_map.mp hletter
    exact ⟨entry.2, rfl⟩
  · obtain ⟨s, hs, rfl⟩ := List.mem_map.mp hsentence
    obtain ⟨f, hf, -⟩ := (hread s hs).formula
    have hletters : ∀ c ∈ s.letters, c ∈ (ofSentences sentences).letters :=
      fun _ hc => Sentence.mem_lettersOf.mpr ⟨s, hs, hc⟩
    exact ⟨_, (hfilled.cell_eq hnodup hk (hread s hs) hletters hf).symm⟩

/-- A table of sentences has truth values in all its cells. -/
theorem exists_truths : ∃ truths : List (List Bool),
    truths.map (List.map Value.bool) = (ofSentences sentences).rows := by
  have hrows : ∀ row ∈ (ofSentences sentences).rows, row ∈ Set.range (List.map Value.bool) := by
    intro row hrow
    rw [Set.range_list_map]
    exact fun v hv => exists_bool_of_mem hread hrow hv
  have hall : (ofSentences sentences).rows ∈ Set.range (List.map (List.map Value.bool)) := by
    rw [Set.range_list_map]
    exact hrows
  exact hall

theorem fit_ofSentences : ∀ row ∈ (ofSentences sentences).rows,
    Fit (ofSentences sentences).widths ((row.map mark).map String.toList) := by
  intro row hrow
  have hlength := (isFilled_ofSentences sentences).length_of_mem hrow
  refine fit_row hrow hlength fun v hv => ?_
  obtain ⟨b, rfl⟩ := exists_bool_of_mem hread hrow hv
  exact cell_mark_bool b

end

/-- The text of a table that is made from sentences, at least one, has a line of headers, a
separator, a line for each row, and the separator again, below a title. All these lines are of one
length, and have their bars at the places of the plus signs. Between the bars stand the headers and,
as T and F, the truth values of the rows, once the blanks are taken away. -/
theorem text_is_aligned_and_lossless {sentences : List Sentence} (hne : sentences ≠ [])
    (hread : ∀ s ∈ sentences, s.IsRead) (session : Session) :
    ∃ t, session.tabulate (sentences.map .sentence) =
        ({ session with table := some t }, .ok (some t)) ∧
      ∃ header separator rows,
        t.toText.toList.splitOn '\n' =
          ["TRUTH TABLE".toList, List.replicate 80 '=', [], header, separator] ++ rows ++
            [separator, []] ∧
        Aligned separator (header :: rows) ∧
        betweenBars header = [[]] ++ t.headers.map String.toList ++ [[]] ∧
        ∃ truths : List (List Bool), t.rows = truths.map (List.map Value.bool) ∧
          rows.map betweenBars = truths.map fun row =>
            [[]] ++ row.map (fun b => [if b then 'T' else 'F']) ++ [[]] := by
  obtain ⟨truths, htruths⟩ := exists_truths hread
  have hheaders := fit_headers (cell_of_header hread)
  have hrows := fit_ofSentences hread
  refine ⟨ofSentences sentences, tabulate_sentences hne session, _, _, _,
    splitOn_toText hheaders hrows, aligned_lines hheaders hrows, betweenBars_barred hheaders,
    truths, htruths.symm, ?_⟩
  have hmarks (row : List Bool) : ((row.map Value.bool).map mark).map String.toList =
      row.map fun b => [if b then 'T' else 'F'] := by
    simp [toList_mark_bool]
  rw [← htruths, List.map_map, List.map_map]
  refine List.map_congr_left fun row hrow => ?_
  have hfit := hrows _ (htruths ▸ List.mem_map_of_mem hrow)
  rw [Function.comp_apply, Function.comp_apply, betweenBars_barred hfit, hmarks]

theorem text_is_aligned_and_lossless_of_typed_bar :
    let p : Sentence :=
      ⟨"C  |A".toList, some (.binary .or (.letter 'C') (.letter 'A')), ['A', 'C']⟩
    let q : Sentence := ⟨"¬A".toList, some (.not (.letter 'A')), ['A']⟩
    Sentence.read p.source = .ok p ∧ Sentence.read q.source = .ok q ∧
      ∃ t, (({} : Session).tabulate [.sentence p, .sentence q]).2 = .ok (some t) ∧
        ∃ header separator rows,
          t.toText.toList.splitOn '\n' =
            ["TRUTH TABLE".toList, List.replicate 80 '=', [], header, separator] ++ rows ++
              [separator, []] ∧
          Aligned separator (header :: rows) ∧
          betweenBars header = [[], ['A'], ['C'], "C ∨A".toList, "¬A".toList, []] ∧
          rows.map betweenBars =
            [[[], ['T'], ['T'], ['T'], ['F'], []], [[], ['T'], ['F'], ['T'], ['F'], []],
              [[], ['F'], ['T'], ['T'], ['T'], []], [[], ['F'], ['F'], ['F'], ['T'], []]] := by
  intro p q
  obtain ⟨hp, hq⟩ : Sentence.read p.source = .ok p ∧ Sentence.read q.source = .ok q := by
    unfold p q
    constructor
    · cbv
    · cbv
  have hread : ∀ s ∈ [p, q], s.IsRead := by
    simp only [List.forall_mem_cons]
    exact ⟨⟨_, hp⟩, ⟨_, hq⟩, List.forall_mem_nil _⟩
  obtain ⟨t, hmade, header, separator, rows, hlines, haligned, hheader, truths, htruths, hrows⟩ :=
    text_is_aligned_and_lossless (List.cons_ne_nil p [q]) hread {}
  have hsame : some (ofSentences [p, q]) = some t := congrArg (fun made => made.1.table) hmade
  obtain rfl := Option.some.inj hsame
  have hinj : Function.Injective (List.map (List.map Value.bool)) :=
    List.map_injective_iff.mpr (List.map_injective_iff.mpr fun _ _ => Value.bool.inj)
  obtain rfl : truths = [[true, true, true, false], [true, false, true, false],
      [false, true, true, true], [false, false, false, true]] :=
    hinj (htruths.symm.trans rfl)
  refine ⟨hp, hq, _, congrArg Prod.snd hmade, header, separator, rows, hlines, haligned, ?_, hrows⟩
  rw [hheader]
  decide

end Table

end Sentential
