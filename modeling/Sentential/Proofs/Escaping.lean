import Mathlib.Data.List.Basic
import Sentential.Text.Latex

/-! Replacing characters one after another, against replacing all of them at once. A character that
is replaced in its turn may stand in what an earlier replacement wrote, and then it is replaced there
too. As every replacement is longer than the one character that it stands for, such a second
replacement cannot go unseen: the text only gets longer. So the two ways agree on a text exactly if
they agree on each of its characters. -/

namespace Sentential.Text.Latex

/-- A text with every character replaced that has an entry in the table, all at once. -/
def replaceAtOnce (table : List (Char × List Char)) (text : List Char) : List Char :=
  text.flatMap fun c => (table.lookup c).getD [c]

/-- The text has a character with an entry in the table. -/
def touches (table : List (Char × List Char)) (text : List Char) : Bool :=
  text.any fun c => (table.lookup c).isSome

/-- The characters whose replacement is touched by later entries of the table. -/
def disturbed : List (Char × List Char) → List Char
  | [] => []
  | (old, new) :: rest => if touches rest new then old :: disturbed rest else disturbed rest

/-- No character has two entries, and each has a replacement of more than one character. -/
structure Lengthens (table : List (Char × List Char)) : Prop where
  distinct : (table.map Prod.fst).Nodup
  longer : ∀ entry ∈ table, 1 < entry.2.length

section

variable {old c : Char} {new text : List Char} {table : List (Char × List Char)}

theorem replaceInTurn_cons :
    replaceInTurn ((old, new) :: table) text = replaceInTurn table (replaceChar old new text) :=
  rfl

theorem replaceInTurn_append (table : List (Char × List Char)) (xs ys : List Char) :
    replaceInTurn table (xs ++ ys) = replaceInTurn table xs ++ replaceInTurn table ys := by
  induction table generalizing xs ys with
  | nil => rfl
  | cons entry rest ih =>
    obtain ⟨old, new⟩ := entry
    simp only [replaceInTurn_cons, replaceChar, List.flatMap_append, ih]

theorem replaceInTurn_nil (table : List (Char × List Char)) : replaceInTurn table [] = [] := by
  induction table with
  | nil => rfl
  | cons entry rest ih => exact ih

/-- Replacing in turn acts on each character by itself. -/
theorem replaceInTurn_eq_flatMap (table : List (Char × List Char)) (text : List Char) :
    replaceInTurn table text = text.flatMap fun c => replaceInTurn table [c] := by
  induction text with
  | nil => exact replaceInTurn_nil table
  | cons c rest ih =>
    rw [List.flatMap_cons, ← ih, ← replaceInTurn_append]
    rfl

theorem replaceChar_of_not_mem (h : old ∉ text) : replaceChar old new text = text := by
  have hkept : ∀ c ∈ text, (if c = old then new else [c]) = [c] := by
    intro c hc
    refine if_neg ?_
    rintro rfl
    exact h hc
  rw [replaceChar, List.flatMap_congr hkept]
  exact List.flatMap_singleton' text

theorem lookup_cons_of_ne (h : c ≠ old) : ((old, new) :: table).lookup c = table.lookup c := by
  rw [List.lookup_cons, beq_false_of_ne h]

theorem touches_cons :
    touches ((old, new) :: table) text = true ↔ old ∈ text ∨ touches table text = true := by
  simp only [touches, List.any_eq_true]
  constructor
  · rintro ⟨c, hc, hentry⟩
    by_cases heq : c = old
    · exact .inl (heq ▸ hc)
    · rw [lookup_cons_of_ne heq] at hentry
      exact .inr ⟨c, hc, hentry⟩
  · rintro (hold | ⟨c, hc, hentry⟩)
    · exact ⟨old, hold, by simp⟩
    · refine ⟨c, hc, ?_⟩
      by_cases heq : c = old
      · simp [heq]
      · rwa [lookup_cons_of_ne heq]

theorem replaceInTurn_of_not_touches (h : touches table text = false) :
    replaceInTurn table text = text := by
  induction table with
  | nil => rfl
  | cons entry rest ih =>
    obtain ⟨old, new⟩ := entry
    rw [← Bool.not_eq_true, touches_cons, not_or, Bool.not_eq_true] at h
    rw [replaceInTurn_cons, replaceChar_of_not_mem h.1, ih h.2]

/-! Texts only get longer. -/

theorem length_le_replaceChar (old : Char) (h : 1 < new.length) (text : List Char) :
    text.length ≤ (replaceChar old new text).length := by
  induction text with
  | nil => exact Nat.zero_le _
  | cons c rest ih =>
    simp only [replaceChar, List.flatMap_cons, List.length_append, List.length_cons] at ih ⊢
    split
    · omega
    · simp only [List.length_singleton]
      omega

theorem length_lt_replaceChar (h : 1 < new.length) (hold : old ∈ text) :
    text.length < (replaceChar old new text).length := by
  obtain ⟨xs, ys, rfl⟩ := List.append_of_mem hold
  have hxs := length_le_replaceChar old h xs
  have hys := length_le_replaceChar old h ys
  simp only [replaceChar, List.flatMap_append, List.flatMap_cons, List.length_append,
    List.length_cons, if_pos] at hxs hys ⊢
  omega

theorem Lengthens.tail (h : Lengthens ((old, new) :: table)) : Lengthens table :=
  ⟨(List.nodup_cons.mp h.distinct).2, fun entry hentry => h.longer entry (.tail _ hentry)⟩

theorem Lengthens.length_le (h : Lengthens table) (text : List Char) :
    text.length ≤ (replaceInTurn table text).length := by
  induction table generalizing text with
  | nil => exact Nat.le_refl _
  | cons entry rest ih =>
    obtain ⟨old, new⟩ := entry
    calc text.length
        ≤ (replaceChar old new text).length :=
          length_le_replaceChar old (h.longer _ (.head _)) text
      _ ≤ (replaceInTurn rest (replaceChar old new text)).length := ih h.tail _

theorem Lengthens.length_lt (h : Lengthens table) (htouches : touches table text = true) :
    text.length < (replaceInTurn table text).length := by
  induction table with
  | nil => simp [touches] at htouches
  | cons entry rest ih =>
    obtain ⟨old, new⟩ := entry
    rw [replaceInTurn_cons]
    by_cases hold : old ∈ text
    · calc text.length
          < (replaceChar old new text).length := length_lt_replaceChar (h.longer _ (.head _)) hold
        _ ≤ (replaceInTurn rest (replaceChar old new text)).length := h.tail.length_le _
    · rw [replaceChar_of_not_mem hold]
      exact ih h.tail ((touches_cons.mp htouches).resolve_left hold)

/-! A single character, and from it a text. -/

theorem disturbed_subset : disturbed table ⊆ table.map Prod.fst := by
  induction table with
  | nil => exact List.Subset.refl _
  | cons entry rest ih =>
    obtain ⟨old, new⟩ := entry
    rw [disturbed, List.map_cons]
    split
    · exact List.cons_subset_cons old ih
    · exact List.subset_cons_of_subset old ih

/-- A character that is not disturbed becomes its entry, and a disturbed one something longer. -/
theorem Lengthens.replaceInTurn_singleton (h : Lengthens table) (c : Char) :
    (c ∉ disturbed table ∧ replaceInTurn table [c] = (table.lookup c).getD [c]) ∨
      (c ∈ disturbed table ∧
        ((table.lookup c).getD [c]).length < (replaceInTurn table [c]).length) := by
  induction table with
  | nil => exact .inl ⟨List.not_mem_nil, rfl⟩
  | cons entry rest ih =>
    obtain ⟨old, new⟩ := entry
    rw [replaceInTurn_cons, disturbed]
    by_cases heq : c = old
    · subst heq
      have hrest : c ∉ disturbed rest := fun hc =>
        (List.nodup_cons.mp h.distinct).1 (disturbed_subset hc)
      have hnew : replaceChar c new [c] = new := by simp [replaceChar]
      rw [hnew, List.lookup_cons_self, Option.getD_some]
      cases htouches : touches rest new with
      | true => exact .inr ⟨by simp, h.tail.length_lt htouches⟩
      | false => exact .inl ⟨by simpa using hrest, replaceInTurn_of_not_touches htouches⟩
    · have hkept : replaceChar old new [c] = [c] := by simp [replaceChar, heq]
      have hdisturbed : c ∈ (if touches rest new then old :: disturbed rest else disturbed rest) ↔
          c ∈ disturbed rest := by
        split
        · simp [heq]
        · rfl
      rw [hkept, lookup_cons_of_ne heq, hdisturbed]
      exact ih h.tail

end

/-- Two ways to replace characters, of which the first gives the longer text wherever they differ,
agree on a text exactly if they agree on each of its characters. -/
theorem flatMap_eq_flatMap_iff {f g : Char → List Char}
    (h : ∀ c, f c = g c ∨ (g c).length < (f c).length) (text : List Char) :
    text.flatMap f = text.flatMap g ↔ ∀ c ∈ text, f c = g c := by
  have hle : ∀ l : List Char, (l.flatMap g).length ≤ (l.flatMap f).length := by
    intro l
    induction l with
    | nil => exact Nat.le_refl _
    | cons c rest ih =>
      simp only [List.flatMap_cons, List.length_append]
      rcases h c with heq | hlt
      · rw [heq]
        omega
      · omega
  induction text with
  | nil => simp
  | cons c rest ih =>
    rw [List.flatMap_cons, List.flatMap_cons, List.forall_mem_cons]
    constructor
    · intro hall
      rcases h c with heq | hlt
      · rw [heq] at hall
        exact ⟨heq, ih.mp (List.append_cancel_left hall)⟩
      -- here the first text gets ahead, and `hle` says that the second does not catch up
      · have hlength := congrArg List.length hall
        have hrest := hle rest
        simp only [List.length_append] at hlength
        omega
    · rintro ⟨heq, hrest⟩
      rw [heq, ih.mpr hrest]

theorem Lengthens.inTurn_eq_atOnce_iff {table : List (Char × List Char)} (h : Lengthens table)
    (text : List Char) :
    replaceInTurn table text = replaceAtOnce table text ↔ ∀ c ∈ text, c ∉ disturbed table := by
  have hcases : ∀ c, replaceInTurn table [c] = (table.lookup c).getD [c] ∨
      ((table.lookup c).getD [c]).length < (replaceInTurn table [c]).length := fun c =>
    (h.replaceInTurn_singleton c).imp And.right And.right
  rw [replaceInTurn_eq_flatMap, replaceAtOnce, flatMap_eq_flatMap_iff hcases]
  refine forall₂_congr fun c _ => ?_
  rcases h.replaceInTurn_singleton c with ⟨hc, heq⟩ | ⟨hc, hlt⟩
  · exact iff_of_true heq hc
  · exact iff_of_false (fun heq => by rw [heq] at hlt; omega) (not_not_intro hc)

/-- The characters of ASCII that LaTeX treats specially, but for the backslash. -/
def asciiSpecials : List Char :=
  "&%$#_\x7b\x7d~^".toList

theorem lengthens_exportTable : Lengthens exportTable :=
  ⟨by decide, by decide⟩

theorem lengthens_displayTable : Lengthens displayTable :=
  ⟨by decide, by decide⟩

-- Their replacements begin with a backslash, which is the last of the specials to be replaced. The
-- commands for the connectives have one too, but they come after it.
theorem disturbed_exportTable : disturbed exportTable = asciiSpecials := by
  decide

theorem disturbed_displayTable : disturbed displayTable = asciiSpecials := by
  decide

/-- In an exported table and in the table on display, replacing one character after another comes to
replacing all of them at once exactly if the text has none of the special characters of ASCII, where
the backslash does not count. -/
theorem escaping_in_turn_is_at_once_iff (text : List Char) :
    (inExport text = replaceAtOnce exportTable text ↔ ∀ c ∈ text, c ∉ asciiSpecials) ∧
      (inDisplay text = replaceAtOnce displayTable text ↔ ∀ c ∈ text, c ∉ asciiSpecials) := by
  constructor
  · rw [← disturbed_exportTable]
    exact lengthens_exportTable.inTurn_eq_atOnce_iff text
  · rw [← disturbed_displayTable]
    exact lengthens_displayTable.inTurn_eq_atOnce_iff text

end Sentential.Text.Latex
