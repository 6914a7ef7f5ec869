import Sentential.Inspection
import Sentential.Proofs.Acceptance

/-! The check of parentheses in a text, against what reading the text comes to. In a text that
divides into tokens the parentheses are tokens of their own, so the positions that the check keeps
are as many as the parentheses that are open for a pass over the tokens. A pass over a formula ends
with none open, and so the check never turns down a text that can be read. -/

namespace Sentential

/-- The characters of the parentheses are their tokens, and other characters are other tokens. -/
theorem Token.paren_of_ofChar? {c : Char} {t : Token} (h : Token.ofChar? c = some t) :
    (c = '(' ∧ t = .lparen) ∨ (c = ')' ∧ t = .rparen) ∨
      ((c ≠ '(' ∧ c ≠ ')') ∧ t ≠ .lparen ∧ t ≠ .rparen) := by
  have hopen : Token.ofChar? '(' = some .lparen := by decide
  have hclose : Token.ofChar? ')' = some .rparen := by decide
  by_cases hl : c = '('
  · subst hl
    exact .inl ⟨rfl, Option.some.inj (h.symm.trans hopen)⟩
  by_cases hr : c = ')'
  · subst hr
    exact .inr (.inl ⟨rfl, Option.some.inj (h.symm.trans hclose)⟩)
  refine .inr (.inr ⟨⟨hl, hr⟩, ?_⟩)
  unfold Token.ofChar? at h
  split at h
  · cases h
    simp
  · split at h <;> grind

namespace Outlook

/-- What a token does to the number of open parentheses. -/
theorem opened_of_next {o o' : Outlook} {t : Token} :
    o.next t = some o' → (t = .lparen ∧ o'.opened = o.opened + 1) ∨
      (t = .rparen ∧ o.opened = o'.opened + 1) ∨
      ((t ≠ .lparen ∧ t ≠ .rparen) ∧ o'.opened = o.opened) := by
  fun_cases next o t with
  | case1 d | case2 d | case3 d | case4 d | case5 d =>
    rintro ⟨⟩
    simp
  | case6 => simp

theorem EndsWell.cons_inv {o : Outlook} {t : Token} {tokens : List Token}
    (h : o.EndsWell (t :: tokens)) : ∃ o', o.next t = some o' ∧ o'.EndsWell tokens :=
  Option.bind_eq_some_iff.mp h

theorem EndsWell.cons_other {o : Outlook} {t : Token} {tokens : List Token}
    (h : o.EndsWell (t :: tokens)) (ht : t ≠ .lparen ∧ t ≠ .rparen) :
    ∃ o' : Outlook, o'.opened = o.opened ∧ o'.EndsWell tokens := by
  obtain ⟨o', hnext, h'⟩ := h.cons_inv
  exact ⟨o', by simpa [ht] using opened_of_next hnext, h'⟩

end Outlook

namespace Inspection

theorem balanceFrom_other {c : Char} (h : c ≠ '(' ∧ c ≠ ')') (i : Nat) (opened : List Nat)
    (text : List Char) : balanceFrom i opened (c :: text) = balanceFrom (i + 1) opened text := by
  rw [balanceFrom]
  · exact h.1
  · exact h.2

/-- The check of a text keeps as many positions as a pass over its tokens has parentheses open. -/
theorem balanceFrom_of_endsWell {text : List Char} {ts : List Token} (hscan : Scans text ts)
    {o : Outlook} (h : o.EndsWell ts) (i : Nat) {opened : List Nat}
    (hopened : opened.length = o.opened) : balanceFrom i opened text = .balanced := by
  induction hscan generalizing o i opened with
  | nil =>
    obtain rfl : o = ⟨.operator, 0⟩ := Option.some.inj h
    obtain rfl : opened = [] := List.length_eq_zero_iff.mp hopened
    rfl
  | arrow _ ih =>
    obtain ⟨o', hsame, h'⟩ := h.cons_other (by decide)
    rw [balanceFrom_other (by decide), balanceFrom_other (by decide)]
    exact ih h' _ (hopened.trans hsame.symm)
  | doubleArrow _ ih =>
    obtain ⟨o', hsame, h'⟩ := h.cons_other (by decide)
    rw [balanceFrom_other (by decide), balanceFrom_other (by decide), balanceFrom_other (by decide)]
    exact ih h' _ (hopened.trans hsame.symm)
  | @blank c text ts hblank _ ih =>
    have hother : c ≠ '(' ∧ c ≠ ')' := by
      constructor
      all_goals
        rintro rfl
        exact absurd hblank (by decide)
    rw [balanceFrom_other hother]
    exact ih h _ hopened
  | @sign c t text ts _ hc _ ih =>
    obtain ⟨rfl, rfl⟩ | ⟨rfl, rfl⟩ | ⟨hother, ht⟩ := Token.paren_of_ofChar? hc
    · obtain ⟨o', hnext, h'⟩ := h.cons_inv
      have hone : o'.opened = o.opened + 1 := by simpa using Outlook.opened_of_next hnext
      exact ih h' _ (by rw [List.length_cons, hopened, hone])
    · obtain ⟨o', hnext, h'⟩ := h.cons_inv
      have hone : o.opened = o'.opened + 1 := by simpa using Outlook.opened_of_next hnext
      obtain ⟨position, rest, rfl⟩ :=
        List.exists_cons_of_length_eq_add_one (hopened.trans hone)
      exact ih h' _ (by simpa [hone] using hopened)
    · obtain ⟨o', hsame, h'⟩ := h.cons_other ht
      rw [balanceFrom_other hother]
      exact ih h' _ (hopened.trans hsame.symm)

theorem balance_of_derives {text : List Char} {ts : List Token} {f : Formula}
    (hscan : Scans text ts) (hder : Derives .iff ts f) : balance text = .balanced :=
  balanceFrom_of_endsWell hscan (hder.after_eq 0) 0 rfl

theorem exists_read_iff {text : List Char} :
    (∃ s, Sentence.read text = .ok s) ↔ ∃ ts f, Scans text ts ∧ Derives .iff ts f := by
  constructor
  · rintro ⟨s, hread⟩
    obtain ⟨ts, f, hscan, hder, rfl⟩ := Sentence.derives_of_read hread
    exact ⟨ts, f, Scans.trim_iff.mp hscan, hder⟩
  · rintro ⟨ts, f, hscan, hder⟩
    exact ⟨_, Sentence.read_of_derives hscan hder⟩

theorem wellFormed_eq_ok {text : List Char} :
    wellFormed text = .ok () ↔ ∃ s, Sentence.read text = .ok s := by
  simp only [wellFormed]
  constructor
  · intro h
    split at h
    · cases h
    · split at h
      · cases h
      · split at h
        · cases h
        · next s hread =>
          obtain ⟨ts, f, hscan, hder⟩ := exists_read_iff.mp ⟨s, hread⟩
          exact exists_read_iff.mpr ⟨ts, f, Scans.trim_iff.mp hscan, hder⟩
  · intro h
    obtain ⟨ts, f, hscan, hder⟩ := exists_read_iff.mp h
    have htrim := Scans.trim_iff.mpr hscan
    have hne : Text.trim text ≠ [] := htrim.ne_nil hder.ne_nil
    rw [if_neg (by simpa using hne), if_neg (by simp [balance_of_derives htrim hder]),
      Sentence.read_of_derives htrim hder]

/-- A text is reported to be well formed exactly if it can be read as a sentence: the check of
parentheses that comes first turns down no text that is read as a formula. -/
theorem report_affirms_exactly_what_is_read (text : List Char) :
    ((formReport text).1 = true ↔ ∃ s, Sentence.read text = .ok s) ∧
      ∀ f, Formula.parse text = .ok f → balance text = .balanced := by
  constructor
  · rw [← wellFormed_eq_ok, formReport]
    cases wellFormed text with
    | error cause => simp
    | ok u => simp
  · intro f hparse
    obtain ⟨ts, hscan, hder⟩ := Formula.parse_eq_ok.mp hparse
    exact balance_of_derives hscan hder

end Inspection

end Sentential
