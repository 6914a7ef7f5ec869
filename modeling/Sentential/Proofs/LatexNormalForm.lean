import Mathlib.Data.List.DropRight
import Mathlib.Logic.Function.Iterate
import Sentential.Proofs.Escaping

/-! A formula's text for a proof is in normal form. Spaces can be made single in passes, each of
which puts one space for two wherever it finds them, from the left. A pass shortens the text as long
as there are two to find, and does not change what the text comes to when all runs of spaces are
single; so the passes come to an end, with this text. It keeps all characters that are not blank,
and no sign is left in it, so that nothing changes when it is converted once more. -/

namespace Sentential.Text

/-- A text is its trimmed form with blanks before and after. -/
theorem exists_blanks_around (text : List Char) :
    ∃ front back, (∀ c ∈ front, isBlank c = true) ∧ (∀ c ∈ back, isBlank c = true) ∧
      front ++ trim text ++ back = text := by
  refine ⟨text.takeWhile isBlank, (text.dropWhile isBlank).rtakeWhile isBlank,
    fun c => List.mem_takeWhile_imp, fun c => List.mem_rtakeWhile_imp, ?_⟩
  calc text.takeWhile isBlank ++ trim text ++ (text.dropWhile isBlank).rtakeWhile isBlank
      = text.takeWhile isBlank ++ ((text.dropWhile isBlank).rdropWhile isBlank ++
          (text.dropWhile isBlank).rtakeWhile isBlank) := List.append_assoc _ _ _
    _ = text.takeWhile isBlank ++ text.dropWhile isBlank := by
        rw [List.rdropWhile_append_rtakeWhile]
    _ = text := List.takeWhile_append_dropWhile

theorem isInfix_trim (text : List Char) : trim text <:+: text := by
  obtain ⟨front, back, -, -, htext⟩ := exists_blanks_around text
  exact ⟨front, back, htext⟩

theorem filter_trim (text : List Char) :
    (trim text).filter (!isBlank ·) = text.filter (!isBlank ·) := by
  obtain ⟨front, back, hfront, hback, htext⟩ := exists_blanks_around text
  have hnone : ∀ w : List Char, (∀ c ∈ w, isBlank c = true) → w.filter (!isBlank ·) = [] :=
    fun w hw => List.filter_eq_nil_iff.mpr fun c hc => by simp [hw c hc]
  calc (trim text).filter (!isBlank ·)
      = (front ++ trim text ++ back).filter (!isBlank ·) := by
        simp only [List.filter_append, hnone front hfront, hnone back hback, List.nil_append,
          List.append_nil]
    _ = text.filter (!isBlank ·) := by rw [htext]

theorem isBlank_head_trim {text : List Char} {c : Char} (h : (trim text).head? = some c) :
    isBlank c = false := by
  obtain ⟨rest, hrest⟩ := List.head?_eq_some_iff.mp h
  obtain ⟨back, hback⟩ : trim text <+: text.dropWhile isBlank :=
    List.rdropWhile_prefix isBlank _
  have hhead := List.head?_dropWhile_not isBlank text
  rw [← hback, hrest] at hhead
  exact hhead

theorem isBlank_last_trim {text : List Char} {c : Char} (h : (trim text).getLast? = some c) :
    isBlank c = false := by
  have hlast := List.head?_dropWhile_not isBlank (text.dropWhile isBlank).reverse
  rw [trim, List.getLast?_reverse] at h
  rw [h] at hlast
  exact hlast

theorem trim_of_ends {text : List Char} (hfirst : ∀ c, text.head? = some c → isBlank c = false)
    (hlast : ∀ c, text.getLast? = some c → isBlank c = false) : trim text = text := by
  have hdrop : text.dropWhile isBlank = text := by
    cases text with
    | nil => rfl
    | cons c rest => exact List.dropWhile_cons_of_neg (by simp [hfirst c rfl])
  rw [trim, hdrop]
  refine List.rdropWhile_eq_self_iff.mpr fun hne => ?_
  rw [Bool.not_eq_true]
  exact hlast _ (List.getLast?_eq_some_getLast hne)

end Sentential.Text

namespace Sentential.Text.Latex

/-! Passes over the spaces. -/

/-- A text with two adjacent spaces made one wherever they are found, from the left. -/
def joinPairs : List Char → List Char
  | [] => []
  | ' ' :: ' ' :: rest => ' ' :: joinPairs rest
  | c :: rest => c :: joinPairs rest

/-- The character and the first of the rest are not both spaces. -/
def Apart (c : Char) (rest : List Char) : Prop :=
  ¬(c = ' ' ∧ rest.head? = some ' ')

section

variable {c : Char} {rest : List Char}

theorem apart_iff : Apart c rest ↔ ∀ r, c = ' ' → rest = ' ' :: r → False := by
  constructor
  · rintro h r hc rfl
    exact h ⟨hc, rfl⟩
  · rintro h ⟨hc, hhead⟩
    obtain ⟨r, hr⟩ := List.head?_eq_some_iff.mp hhead
    exact h r hc hr

theorem singleSpaced_apart (h : Apart c rest) :
    singleSpaced (c :: rest) = c :: singleSpaced rest :=
  singleSpaced.eq_3 c rest (apart_iff.mp h)

theorem joinPairs_apart (h : Apart c rest) : joinPairs (c :: rest) = c :: joinPairs rest :=
  joinPairs.eq_3 c rest (apart_iff.mp h)

theorem isInfix_apart (h : Apart c rest) : [' ', ' '] <:+: c :: rest ↔ [' ', ' '] <:+: rest := by
  rw [List.infix_cons_iff, or_iff_right]
  rintro ⟨back, hback⟩
  injection hback with hc hrest
  exact h ⟨hc.symm, by rw [← hrest]; rfl⟩

end

theorem head?_singleSpaced (text : List Char) : (singleSpaced text).head? = text.head? := by
  induction text using singleSpaced.induct with
  | case1 => rfl
  | case2 rest ih => exact ih
  | case3 c rest h _ => rw [singleSpaced_apart (apart_iff.mpr h)]; rfl

theorem singleSpaced_congr {xs ys : List Char} (h : singleSpaced xs = singleSpaced ys) (c : Char) :
    singleSpaced (c :: xs) = singleSpaced (c :: ys) := by
  have hhead : xs.head? = ys.head? := by rw [← head?_singleSpaced, h, head?_singleSpaced]
  by_cases hxs : Apart c xs
  · have hys : Apart c ys := by rwa [Apart, ← hhead]
    rw [singleSpaced_apart hxs, singleSpaced_apart hys, h]
  · obtain ⟨rfl, hspace⟩ := not_not.mp hxs
    obtain ⟨xs, rfl⟩ := List.head?_eq_some_iff.mp hspace
    obtain ⟨ys, rfl⟩ := List.head?_eq_some_iff.mp (hhead.symm.trans hspace)
    exact h

theorem not_isInfix_singleSpaced (text : List Char) : ¬[' ', ' '] <:+: singleSpaced text := by
  induction text using singleSpaced.induct with
  | case1 => decide
  | case2 rest ih => exact ih
  | case3 c rest h ih =>
    have hapart := apart_iff.mpr h
    have hafter : Apart c (singleSpaced rest) := by rwa [Apart, head?_singleSpaced]
    rwa [singleSpaced_apart hapart, isInfix_apart hafter]

theorem singleSpaced_eq_self {text : List Char} (h : ¬[' ', ' '] <:+: text) :
    singleSpaced text = text := by
  induction text using singleSpaced.induct with
  | case1 => rfl
  | case2 rest _ => exact absurd ⟨[], rest, rfl⟩ h
  | case3 c rest hapart ih =>
    rw [← apart_iff] at hapart
    rw [singleSpaced_apart hapart, ih (mt (isInfix_apart hapart).mpr h)]

theorem filter_singleSpaced (text : List Char) :
    (singleSpaced text).filter (!isBlank ·) = text.filter (!isBlank ·) := by
  have hspace : ∀ xs : List Char, (' ' :: xs).filter (!isBlank ·) = xs.filter (!isBlank ·) :=
    fun xs => List.filter_cons_of_neg (by decide)
  induction text using singleSpaced.induct with
  | case1 => rfl
  | case2 rest ih => rw [singleSpaced, ih, hspace (' ' :: rest)]
  | case3 c rest h ih =>
    rw [singleSpaced_apart (apart_iff.mpr h), List.filter_cons, List.filter_cons, ih]

/-- A pass does not change what all passes come to. -/
theorem singleSpaced_joinPairs (text : List Char) :
    singleSpaced (joinPairs text) = singleSpaced text := by
  induction text using joinPairs.induct with
  | case1 => rfl
  | case2 rest ih => exact singleSpaced_congr ih ' '
  | case3 c rest h ih =>
    rw [joinPairs_apart (apart_iff.mpr h)]
    exact singleSpaced_congr ih c

theorem length_joinPairs_le (text : List Char) : (joinPairs text).length ≤ text.length := by
  induction text using joinPairs.induct with
  | case1 => exact Nat.le_refl _
  | case2 rest ih =>
    simp only [joinPairs, List.length_cons]
    omega
  | case3 c rest h ih =>
    simp only [joinPairs_apart (apart_iff.mpr h), List.length_cons]
    omega

theorem length_joinPairs_lt {text : List Char} (h : [' ', ' '] <:+: text) :
    (joinPairs text).length < text.length := by
  induction text using joinPairs.induct with
  | case1 => exact absurd h (by decide)
  | case2 rest _ =>
    have hle := length_joinPairs_le rest
    simp only [joinPairs, List.length_cons]
    omega
  | case3 c rest hapart ih =>
    rw [← apart_iff] at hapart
    have hlt := ih ((isInfix_apart hapart).mp h)
    simp only [joinPairs_apart hapart, List.length_cons]
    omega

/-- Passes made as long as two spaces are adjacent are no more than the text has characters, and end
with all spaces single. -/
theorem exists_passes (text : List Char) :
    ∃ n ≤ text.length, (∀ k < n, [' ', ' '] <:+: joinPairs^[k] text) ∧
      joinPairs^[n] text = singleSpaced text := by
  -- a pass that finds two spaces lowers the length
  induction hlength : text.length using Nat.strong_induction_on generalizing text with
  | _ m ih =>
    by_cases hpair : [' ', ' '] <:+: text
    · have hlt := length_joinPairs_lt hpair
      obtain ⟨n, hn, hbusy, hend⟩ := ih _ (hlength ▸ hlt) (joinPairs text) rfl
      refine ⟨n + 1, by omega, fun k hk => ?_, ?_⟩
      · cases k with
        | zero => exact hpair
        | succ k => exact hbusy k (by omega)
      · rw [Function.iterate_succ_apply, hend, singleSpaced_joinPairs]
    · refine ⟨0, Nat.zero_le _, fun k hk => absurd hk (Nat.not_lt_zero k), ?_⟩
      exact (singleSpaced_eq_self hpair).symm

/-! The commands in place of the signs. -/

/-- A command with a space on either side. -/
def setOff (command : List Char) : List Char :=
  ' ' :: (command ++ [' '])

def spacedCommands : List (Char × List Char) :=
  proofCommands.map fun entry => (entry.1, setOff entry.2)

theorem inProof_eq (text : List Char) :
    inProof text = trim (singleSpaced (replaceInTurn spacedCommands text)) :=
  rfl

theorem lengthens_spacedCommands : Lengthens spacedCommands :=
  ⟨by decide, by decide⟩

theorem disturbed_spacedCommands : disturbed spacedCommands = [] := by
  decide

/-- No command has a sign in it, so replacing the signs in turn is replacing them at once. -/
theorem replaceInTurn_spacedCommands (text : List Char) :
    replaceInTurn spacedCommands text = replaceAtOnce spacedCommands text := by
  refine (lengthens_spacedCommands.inTurn_eq_atOnce_iff text).mpr fun c _ => ?_
  rw [disturbed_spacedCommands]
  exact List.not_mem_nil

theorem lookup_map_snd (f : List Char → List Char) (table : List (Char × List Char)) (c : Char) :
    (table.map fun entry => (entry.1, f entry.2)).lookup c = (table.lookup c).map f := by
  induction table with
  | nil => rfl
  | cons entry rest ih =>
    rw [List.map_cons, List.lookup_cons, List.lookup_cons, ih]
    cases c == entry.1 <;> rfl

theorem filter_setOff (command : List Char) :
    (setOff command).filter (!isBlank ·) = command.filter (!isBlank ·) := by
  have hspace : [' '].filter (!isBlank ·) = [] := by decide
  have hparts : setOff command = [' '] ++ (command ++ [' ']) := rfl
  rw [hparts, List.filter_append, List.filter_append, hspace, List.nil_append, List.append_nil]

theorem filter_replaceAtOnce_spacedCommands (text : List Char) :
    (replaceAtOnce spacedCommands text).filter (!isBlank ·) =
      (replaceAtOnce proofCommands text).filter (!isBlank ·) := by
  rw [replaceAtOnce, replaceAtOnce, List.filter_flatMap, List.filter_flatMap]
  refine List.flatMap_congr fun c _ => ?_
  rw [spacedCommands, lookup_map_snd]
  cases proofCommands.lookup c with
  | none => rfl
  | some command => exact filter_setOff command

theorem filter_inProof (text : List Char) :
    (inProof text).filter (!isBlank ·) =
      (replaceAtOnce proofCommands text).filter (!isBlank ·) := by
  rw [inProof_eq, filter_trim, filter_singleSpaced, replaceInTurn_spacedCommands,
    filter_replaceAtOnce_spacedCommands]

theorem touches_iff {table : List (Char × List Char)} {text : List Char} :
    touches table text = true ↔ ∃ entry ∈ table, entry.1 ∈ text := by
  simp only [touches, List.any_eq_true, List.lookup_isSome_iff, beq_iff_eq]
  constructor
  · rintro ⟨c, hc, entry, hentry, rfl⟩
    exact ⟨entry, hentry, hc⟩
  · rintro ⟨entry, hentry, hc⟩
    exact ⟨entry.1, hc, entry, hentry, rfl⟩

/-- If nothing is to be replaced in the replacements, nothing is left to be replaced. -/
theorem touches_replaceAtOnce {table : List (Char × List Char)}
    (h : ∀ entry ∈ table, touches table entry.2 = false) (text : List Char) :
    touches table (replaceAtOnce table text) = false := by
  rw [touches, replaceAtOnce, List.any_flatMap, List.any_eq_false]
  intro c _
  rw [Bool.not_eq_true]
  cases hlookup : table.lookup c with
  | none => simp [hlookup]
  | some new =>
    obtain ⟨front, back, htable, -⟩ := List.lookup_eq_some_iff.mp hlookup
    exact h (c, new) (by simp [htable])

theorem sign_not_mem_inProof {entry : Char × List Char} (hentry : entry ∈ proofCommands)
    (text : List Char) : entry.1 ∉ inProof text := by
  intro hmem
  have hsigns : proofCommands.all (fun entry => !isBlank entry.1) = true := by decide
  have hkept : entry.1 ∈ (inProof text).filter (!isBlank ·) :=
    List.mem_filter.mpr ⟨hmem, List.all_eq_true.mp hsigns entry hentry⟩
  rw [filter_inProof] at hkept
  have htouches : touches proofCommands (replaceAtOnce proofCommands text) = true :=
    touches_iff.mpr ⟨entry, hentry, (List.mem_filter.mp hkept).1⟩
  rw [touches_replaceAtOnce (by decide)] at htouches
  cases htouches

theorem not_isInfix_inProof (text : List Char) : ¬[' ', ' '] <:+: inProof text := fun h =>
  not_isInfix_singleSpaced _ (h.trans (isInfix_trim _))

theorem inProof_of_normal {text : List Char} (hsigns : ∀ entry ∈ proofCommands, entry.1 ∉ text)
    (hspaces : ¬[' ', ' '] <:+: text) (hends : trim text = text) : inProof text = text := by
  have hkept : replaceInTurn spacedCommands text = text := by
    refine replaceInTurn_of_not_touches (Bool.not_eq_true _ ▸ fun htouches => ?_)
    obtain ⟨entry, hentry, hmem⟩ := touches_iff.mp htouches
    obtain ⟨sign, hsign, rfl⟩ := List.mem_map.mp hentry
    exact hsigns sign hsign hmem
  rw [inProof_eq, hkept, singleSpaced_eq_self hspaces, hends]

/-- Once the commands are set in, passes over the spaces are made as long as two of them are
adjacent; they end, and with the text for a proof, which is in normal form: it has none of the
signs, no two adjacent spaces and no blank at its ends. What is not blank in it is the given text
with the commands in place of the signs, and converting it once more changes nothing. -/
theorem text_for_proofs_is_normal (text : List Char) :
    (∃ n ≤ (replaceInTurn spacedCommands text).length,
      (∀ k < n, [' ', ' '] <:+: joinPairs^[k] (replaceInTurn spacedCommands text)) ∧
      ¬[' ', ' '] <:+: joinPairs^[n] (replaceInTurn spacedCommands text) ∧
      inProof text = trim (joinPairs^[n] (replaceInTurn spacedCommands text))) ∧
    (∀ entry ∈ proofCommands, entry.1 ∉ inProof text) ∧
    ¬[' ', ' '] <:+: inProof text ∧
    (∀ c, (inProof text).head? = some c → isBlank c = false) ∧
    (∀ c, (inProof text).getLast? = some c → isBlank c = false) ∧
    (inProof text).filter (!isBlank ·) = (replaceAtOnce proofCommands text).filter (!isBlank ·) ∧
    inProof (inProof text) = inProof text := by
  have hsigns : ∀ entry ∈ proofCommands, entry.1 ∉ inProof text :=
    fun entry hentry => sign_not_mem_inProof hentry text
  have hfirst : ∀ c, (inProof text).head? = some c → isBlank c = false :=
    fun c hc => isBlank_head_trim hc
  have hlast : ∀ c, (inProof text).getLast? = some c → isBlank c = false :=
    fun c hc => isBlank_last_trim hc
  refine ⟨?_, hsigns, not_isInfix_inProof text, hfirst, hlast, filter_inProof text, ?_⟩
  · obtain ⟨n, hn, hbusy, hend⟩ := exists_passes (replaceInTurn spacedCommands text)
    refine ⟨n, hn, hbusy, ?_, ?_⟩
    · rw [hend]
      exact not_isInfix_singleSpaced _
    · rw [hend, inProof_eq]
  · exact inProof_of_normal hsigns (not_isInfix_inProof text) (trim_of_ends hfirst hlast)

end Sentential.Text.Latex
