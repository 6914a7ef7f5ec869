import Mathlib.Data.List.Induction
import Mathlib.Order.Bounds.Basic
import Sentential.Proofs.Parentheses

/-! Where the check of parentheses finds fault. The positions that it keeps are those of the
parentheses that are open at that place, the last opened first, and the one at place `j` has `j + 1`
more opening than closing parentheses from there on. So a closing parenthesis takes away the only
one that it can close, a closing parenthesis that finds none makes the first front with too many of
them, and what is left at the end begins with the first parenthesis that was never closed. -/

namespace Sentential.Inspection

/-- The front of the text up to this position has more closing than opening parentheses. -/
def Overcloses (text : List Char) (p : Nat) : Prop :=
  p < text.length ∧ (text.take (p + 1)).count '(' < (text.take (p + 1)).count ')'

/-- The parenthesis that opens at this position is never closed: whatever is taken of the text from
there on has more opening than closing parentheses. -/
def IsUnclosed (text : List Char) (p : Nat) : Prop :=
  text[p]? = some '(' ∧
    ∀ segment, segment <+: text.drop p → segment ≠ [] → segment.count ')' < segment.count '('

/-- No front of the text has more closing than opening parentheses. -/
def NeverOvercloses (text : List Char) : Prop :=
  ∀ front, front <+: text → front.count ')' ≤ front.count '('

theorem neverOvercloses_iff {text : List Char} :
    NeverOvercloses text ↔ ∀ p, ¬Overcloses text p := by
  constructor
  · rintro h p ⟨-, hlt⟩
    have hle := h _ (List.take_prefix (p + 1) text)
    omega
  · intro h front hfront
    cases front using List.reverseRecOn with
    | nil => exact Nat.le_refl _
    | append_singleton init c =>
      have hlength := hfront.length_le
      have htake : text.take (init.length + 1) = init ++ [c] := by
        simpa using (List.prefix_iff_eq_take.mp hfront).symm
      have hnot := h init.length
      rw [Overcloses, htake] at hnot
      rw [List.length_append, List.length_singleton] at hlength
      omega

theorem NeverOvercloses.concat {front : List Char} (h : NeverOvercloses front) {c : Char} {n : Nat}
    (htotal : (front ++ [c]).count '(' = (front ++ [c]).count ')' + n) :
    NeverOvercloses (front ++ [c]) := by
  intro init hinit
  rcases List.prefix_concat_iff.mp hinit with rfl | hinit
  · omega
  · exact h init hinit

theorem count_open (l : List Char) :
    (l ++ ['(']).count '(' = l.count '(' + 1 ∧ (l ++ ['(']).count ')' = l.count ')' := by
  simp

theorem count_close (l : List Char) :
    (l ++ [')']).count '(' = l.count '(' ∧ (l ++ [')']).count ')' = l.count ')' + 1 := by
  simp

theorem count_other {c : Char} (hc : c ≠ '(' ∧ c ≠ ')') (l : List Char) :
    (l ++ [c]).count '(' = l.count '(' ∧ (l ++ [c]).count ')' = l.count ')' := by
  simp [hc]

section

variable {front : List Char} {p : Nat}

theorem IsUnclosed.lt_length (h : IsUnclosed front p) : p < front.length :=
  (List.getElem?_eq_some_iff.mp h.1).1

theorem IsUnclosed.count_drop_lt (h : IsUnclosed front p) :
    (front.drop p).count ')' < (front.drop p).count '(' := by
  refine h.2 _ (List.prefix_refl _) ?_
  rw [Ne, List.drop_eq_nil_iff, Nat.not_le]
  exact h.lt_length

theorem isUnclosed_concat_of_lt {c : Char} (hp : p < front.length) :
    IsUnclosed (front ++ [c]) p ↔ IsUnclosed front p ∧
      (front.drop p ++ [c]).count ')' < (front.drop p ++ [c]).count '(' := by
  rw [IsUnclosed, IsUnclosed, List.drop_append_of_le_length hp.le, List.getElem?_append_left hp]
  constructor
  · rintro ⟨hopen, hsegments⟩
    refine ⟨⟨hopen, fun segment hsegment => ?_⟩, hsegments _ (List.prefix_refl _) (by simp)⟩
    exact hsegments segment (hsegment.trans (List.prefix_append _ _))
  · rintro ⟨⟨hopen, hsegments⟩, hwhole⟩
    refine ⟨hopen, fun segment hsegment hne => ?_⟩
    rcases List.prefix_concat_iff.mp hsegment with rfl | hsegment
    · exact hwhole
    · exact hsegments segment hsegment hne

theorem isUnclosed_concat_length {c : Char} :
    IsUnclosed (front ++ [c]) front.length ↔ c = '(' := by
  constructor
  · intro h
    simpa using h.1
  · rintro rfl
    refine ⟨by simp, fun segment hsegment hne => ?_⟩
    obtain rfl : segment = ['('] := by
      rw [List.drop_left, List.prefix_cons_iff] at hsegment
      simpa [hne] using hsegment
    decide

/-- What is unclosed after one more character: a parenthesis that was unclosed before, unless this
character makes up for it, and the character itself if it opens. -/
theorem isUnclosed_concat {c : Char} :
    IsUnclosed (front ++ [c]) p ↔
      (IsUnclosed front p ∧
        (front.drop p ++ [c]).count ')' < (front.drop p ++ [c]).count '(') ∨
      (p = front.length ∧ c = '(') := by
  constructor
  · intro h
    have hlength := h.lt_length
    rw [List.length_append, List.length_singleton, Nat.lt_succ_iff_lt_or_eq] at hlength
    rcases hlength with hlt | rfl
    · exact .inl ((isUnclosed_concat_of_lt hlt).mp h)
    · exact .inr ⟨rfl, isUnclosed_concat_length.mp h⟩
  · rintro (h | ⟨rfl, hc⟩)
    · exact (isUnclosed_concat_of_lt h.1.lt_length).mpr h
    · exact isUnclosed_concat_length.mpr hc

/-- The positions kept when the check has passed the front of a text. -/
structure Tracks (front : List Char) (opened : List Nat) : Prop where
  never : NeverOvercloses front
  total : front.count '(' = front.count ')' + opened.length
  unclosed : ∀ p, p ∈ opened ↔ IsUnclosed front p
  decreasing : opened.Pairwise (· > ·)
  excess : ∀ j p, opened[j]? = some p →
    (front.drop p).count '(' = (front.drop p).count ')' + (j + 1)

namespace Tracks

variable {opened : List Nat}

theorem start : Tracks [] [] where
  never front h := by rw [List.prefix_nil.mp h]; exact Nat.le_refl _
  total := rfl
  unclosed p := by simp [IsUnclosed]
  decreasing := .nil
  excess j p h := by simp at h

theorem drop_concat (h : Tracks front opened) {c : Char} (hp : p ∈ opened) :
    (front ++ [c]).drop p = front.drop p ++ [c] :=
  List.drop_append_of_le_length ((h.unclosed p).mp hp).lt_length.le

theorem pushed (h : Tracks front opened) :
    Tracks (front ++ ['(']) (front.length :: opened) := by
  have htotal : (front ++ ['(']).count '(' =
      (front ++ ['(']).count ')' + (front.length :: opened).length := by
    have hbefore := h.total
    have hcount := count_open front
    rw [List.length_cons]
    omega
  refine ⟨h.never.concat htotal, htotal, fun p => ?_, ?_, fun j p hj => ?_⟩
  · rw [isUnclosed_concat, List.mem_cons, h.unclosed, or_comm]
    refine or_congr (and_iff_left_of_imp fun hp => ?_).symm (and_iff_left rfl).symm
    have hlt := hp.count_drop_lt
    have hcount := count_open (front.drop p)
    omega
  · exact List.pairwise_cons.mpr
      ⟨fun p hp => ((h.unclosed p).mp hp).lt_length, h.decreasing⟩
  · cases j with
    | zero =>
      obtain rfl : front.length = p := Option.some.inj hj
      rw [List.drop_left]
      rfl
    | succ j =>
      have hj : opened[j]? = some p := hj
      rw [h.drop_concat (List.mem_of_getElem? hj)]
      have hexcess := h.excess j p hj
      have hcount := count_open (front.drop p)
      omega

theorem popped {q : Nat} (h : Tracks front (q :: opened)) : Tracks (front ++ [')']) opened := by
  have htotal : (front ++ [')']).count '(' = (front ++ [')']).count ')' + opened.length := by
    have hbefore := h.total
    have hcount := count_close front
    rw [List.length_cons] at hbefore
    omega
  refine ⟨h.never.concat htotal, htotal, fun p => ?_, (List.pairwise_cons.mp h.decreasing).2,
    fun j p hj => ?_⟩
  · have hcount := count_close (front.drop p)
    rw [isUnclosed_concat, ← h.unclosed]
    constructor
    · intro hp
      obtain ⟨j, hj⟩ := List.mem_iff_getElem?.mp hp
      have hexcess := h.excess (j + 1) p hj
      exact .inl ⟨.tail _ hp, by omega⟩
    -- the last opened has one more opening than closing parenthesis, which this one makes up for
    · rintro (⟨hp, hlt⟩ | ⟨-, hne⟩)
      · refine (List.mem_cons.mp hp).resolve_left ?_
        rintro rfl
        have hexcess := h.excess 0 p rfl
        omega
      · exact absurd hne (by decide)
  · rw [h.drop_concat (.tail _ (List.mem_of_getElem? hj))]
    have hexcess := h.excess (j + 1) p hj
    have hcount := count_close (front.drop p)
    omega

theorem passed {c : Char} (h : Tracks front opened) (hc : c ≠ '(' ∧ c ≠ ')') :
    Tracks (front ++ [c]) opened := by
  have htotal : (front ++ [c]).count '(' = (front ++ [c]).count ')' + opened.length := by
    have hbefore := h.total
    have hcount := count_other hc front
    omega
  refine ⟨h.never.concat htotal, htotal, fun p => ?_, h.decreasing, fun j p hj => ?_⟩
  · have hkept : IsUnclosed front p →
        (front.drop p ++ [c]).count ')' < (front.drop p ++ [c]).count '(' := by
      intro hp
      have hlt := hp.count_drop_lt
      have hcount := count_other hc (front.drop p)
      omega
    rw [isUnclosed_concat, h.unclosed, and_iff_left_of_imp hkept]
    simp [hc]
  · rw [h.drop_concat (List.mem_of_getElem? hj)]
    have hexcess := h.excess j p hj
    have hcount := count_other hc (front.drop p)
    omega

theorem overcloses_length (h : Tracks front []) (rest : List Char) :
    IsLeast {q | Overcloses (front ++ ')' :: rest) q} front.length := by
  constructor
  · have htake : (front ++ ')' :: rest).take (front.length + 1) = front ++ [')'] := by
      rw [List.append_cons]
      exact List.take_left' (by simp)
    have htotal := h.total
    have hcount := count_close front
    refine ⟨by simp, ?_⟩
    rw [htake]
    rw [List.length_nil] at htotal
    omega
  · intro q hq
    by_contra hlt
    have htake : (front ++ ')' :: rest).take (q + 1) = front.take (q + 1) :=
      List.take_append_of_le_length (by omega)
    have hnever := h.never _ (List.take_prefix (q + 1) front)
    have hover := hq.2
    rw [htake] at hover
    omega

theorem isLeast_getLast (h : Tracks front opened) (hp : opened.getLast? = some p) :
    IsLeast {q | IsUnclosed front q} p := by
  obtain ⟨init, rfl⟩ := List.getLast?_eq_some_iff.mp hp
  refine ⟨(h.unclosed p).mp (by simp), fun q hq => ?_⟩
  have hmem := (h.unclosed q).mpr hq
  rcases List.mem_append.mp hmem with hinit | hlast
  · exact ((List.pairwise_append.mp h.decreasing).2.2 q hinit p (by simp)).le
  · exact (List.mem_singleton.mp hlast).ge

end Tracks

end

/-- The result of a check is true of the text. -/
def Balance.Describes (text : List Char) : Balance → Prop
  | balanced => NeverOvercloses text ∧ text.count '(' = text.count ')'
  | extraClose p => IsLeast {q | Overcloses text q} p
  | extraOpen p => NeverOvercloses text ∧ IsLeast {q | IsUnclosed text q} p

theorem balanceFrom_close (i q : Nat) (opened : List Nat) (rest : List Char) :
    balanceFrom i (q :: opened) (')' :: rest) = balanceFrom (i + 1) opened rest :=
  rfl

theorem Tracks.describes {front : List Char} {opened : List Nat} (h : Tracks front opened)
    (rest : List Char) :
    (balanceFrom front.length opened rest).Describes (front ++ rest) := by
  induction rest generalizing front opened with
  | nil =>
    rw [balanceFrom, List.append_nil]
    cases hlast : opened.getLast? with
    | none =>
      obtain rfl := List.getLast?_eq_none_iff.mp hlast
      exact ⟨h.never, h.total⟩
    | some p => exact ⟨h.never, h.isLeast_getLast hlast⟩
  | cons c rest ih =>
    have hnext : front.length + 1 = (front ++ [c]).length := by simp
    by_cases hopen : c = '('
    · subst hopen
      rw [balanceFrom, hnext, List.append_cons]
      exact ih h.pushed
    by_cases hclose : c = ')'
    · subst hclose
      cases opened with
      | nil => exact h.overcloses_length rest
      | cons q opened =>
        rw [balanceFrom_close, hnext, List.append_cons]
        exact ih h.popped
    · rw [balanceFrom_other ⟨hopen, hclose⟩, hnext, List.append_cons]
      exact ih (h.passed ⟨hopen, hclose⟩)

theorem NeverOvercloses.count_lt {text : List Char} {p : Nat} (h : NeverOvercloses text)
    (hp : IsUnclosed text p) : text.count ')' < text.count '(' := by
  have hfront := h _ (List.take_prefix p text)
  have hrest := hp.count_drop_lt
  calc text.count ')'
      = (text.take p).count ')' + (text.drop p).count ')' := by
        rw [← List.count_append, List.take_append_drop]
    _ < (text.take p).count '(' + (text.drop p).count '(' := by omega
    _ = text.count '(' := by rw [← List.count_append, List.take_append_drop]

theorem Balance.Describes.unique {text : List Char} {b b' : Balance} (h : b.Describes text)
    (h' : b'.Describes text) : b = b' := by
  cases b with
  | balanced =>
    cases b' with
    | balanced => rfl
    | extraClose p => exact absurd h'.1 (neverOvercloses_iff.mp h.1 p)
    | extraOpen p => exact absurd h.2 (h.1.count_lt h'.2.1).ne'
  | extraClose p =>
    cases b' with
    | balanced => exact absurd h.1 (neverOvercloses_iff.mp h'.1 p)
    | extraClose q => rw [IsLeast.unique h h']
    | extraOpen q => exact absurd h.1 (neverOvercloses_iff.mp h'.1 p)
  | extraOpen p =>
    cases b' with
    | balanced => exact absurd h'.2 (h'.1.count_lt h.2.1).ne'
    | extraClose q => exact absurd h'.1 (neverOvercloses_iff.mp h.1 q)
    | extraOpen q => rw [IsLeast.unique h.2 h'.2]

theorem balance_eq_iff {text : List Char} {b : Balance} : balance text = b ↔ b.Describes text := by
  have hdescribes : (balance text).Describes text := Tracks.start.describes text
  exact ⟨fun h => h ▸ hdescribes, hdescribes.unique⟩

/-- The parentheses of a text are found to match exactly if no front of it has more closing than
opening ones and there are as many of both. Otherwise the position reported is the first up to which
there are more closing ones, or if there is none, that of the first parenthesis that is never
closed. -/
theorem balance_finds_first_unmatched (text : List Char) :
    (balance text = .balanced ↔
      (∀ front, front <+: text → front.count ')' ≤ front.count '(') ∧
        text.count '(' = text.count ')') ∧
    (∀ p, balance text = .extraClose p ↔ IsLeast {q | Overcloses text q} p) ∧
    ∀ p, balance text = .extraOpen p ↔
      (∀ q, ¬Overcloses text q) ∧ IsLeast {q | IsUnclosed text q} p := by
  refine ⟨balance_eq_iff, fun p => balance_eq_iff, fun p => ?_⟩
  rw [← neverOvercloses_iff]
  exact balance_eq_iff

end Sentential.Inspection
