import Sentential.Proofs.Drafts

/-! Texts put together from parts. The scanner looks ahead only after a dash or an angle bracket,
and neither is a token by itself, so a text that it accepts ends with a token that is complete: what
is put behind it, be it blanks or another text, is divided as if it stood alone. In the same way the
tokens of a text can be written one after another by their signs and are found again. -/

namespace Sentential

/-- The letters among the tokens are capitals, as those of a text are. -/
def Token.Lettered (ts : List Token) : Prop :=
  ∀ c, .letter c ∈ ts → Text.isCapital c = true

section

variable {s w t text : List Char} {ts us : List Token}

theorem Scans.append_blanks_append (hs : Scans s ts) (hw : ∀ c ∈ w, Text.isBlank c = true)
    (ht : Scans t us) : Scans (s ++ w ++ t) (ts ++ us) := by
  have hfront : Scans (s ++ w) ts := by simpa using hs.append (of_blanks hw)
  exact hfront.append ht

theorem Token.scans_symbol {t : Token} (h : Token.Lettered [t]) : Scans [t.symbol] [t] := by
  cases t with
  | letter c => exact Formula.scans_letter (h c (by simp))
  | not => exact .sign (by decide) (by decide) .nil
  | binary c =>
    have hsign : Text.isBlank c.symbol = false ∧ Token.ofChar? c.symbol = some (.binary c) := by
      cases c <;> decide
    exact .sign hsign.1 hsign.2 .nil
  | lparen => exact .sign (by decide) (by decide) .nil
  | rparen => exact .sign (by decide) (by decide) .nil

theorem Token.Lettered.scans_symbols (h : Token.Lettered ts) : Scans (ts.map Token.symbol) ts := by
  induction ts with
  | nil => exact .nil
  | cons t ts ih =>
    have hfirst : Scans [t.symbol] [t] := Token.scans_symbol fun c hc =>
      h c (List.mem_cons.mpr (.inl (List.mem_singleton.mp hc)))
    have hrest : Scans (ts.map Token.symbol) ts := ih fun c hc => h c (by simp [hc])
    exact hfirst.append hrest

theorem Scans.lettered (h : Scans text ts) : Token.Lettered ts :=
  fun _ hc => h.isCapital hc

end

/-- Behind a text that the scanner accepts another may be put, with or without blanks between them,
and the tokens are those of the first and then those of the second. The signs of the tokens of a
text are a text with the same tokens, and any tokens whose letters are capitals are those of some
text. -/
theorem scan_of_joined_texts {s : List Char} {ts : List Token} (hs : Token.scan s = .ok ts) :
    (∀ (w t : List Char) (us : List Token), (∀ c ∈ w, Text.isBlank c = true) →
      Token.scan t = .ok us → Token.scan (s ++ w ++ t) = .ok (ts ++ us)) ∧
    Token.scan (ts.map Token.symbol) = .ok ts ∧
    ∀ vs : List Token, (∃ text, Token.scan text = .ok vs) ↔ Token.Lettered vs := by
  rw [scan_eq_ok] at hs
  refine ⟨fun w t us hw ht => ?_, ?_, fun vs => ⟨?_, ?_⟩⟩
  · exact scan_eq_ok.mpr (hs.append_blanks_append hw (scan_eq_ok.mp ht))
  · exact scan_eq_ok.mpr hs.lettered.scans_symbols
  · rintro ⟨text, htext⟩
    exact (scan_eq_ok.mp htext).lettered
  · intro h
    exact ⟨vs.map Token.symbol, scan_eq_ok.mpr h.scans_symbols⟩

/-- "A<->" and "->B" with a tab and a space between them: two arrows in a row. -/
theorem scan_of_joined_arrows :
    let s := "A<->".toList
    let w := "\t ".toList
    let t := "->B".toList
    let ts : List Token := [.letter 'A', .binary .iff]
    let us : List Token := [.binary .implies, .letter 'B']
    Token.scan s = .ok ts ∧ (∀ c ∈ w, Text.isBlank c = true) ∧ Token.scan t = .ok us ∧
      Token.scan (s ++ w ++ t) = .ok (ts ++ us) ∧ Token.scan "A↔".toList = .ok ts := by
  intro s w t ts us
  have hs : Token.scan s = .ok ts := by rfl
  have hw : ∀ c ∈ w, Text.isBlank c = true := List.all_eq_true.mp (by decide)
  have ht : Token.scan t = .ok us := by rfl
  obtain ⟨hjoined, hsigns, -⟩ := scan_of_joined_texts hs
  exact ⟨hs, hw, ht, hjoined w t us hw ht, hsigns⟩

end Sentential
