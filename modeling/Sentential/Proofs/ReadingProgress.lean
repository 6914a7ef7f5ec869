import Sentential.Proofs.Scanning

/-! Where a reading ends. The readers are given what is left of the tokens; seen from the whole list,
a reader is called at a position and returns a later one, up to which it has read. It takes in all
that it can: no connective follows that it could have taken in. A reader that returns nothing has
come to a place where it did not find what was due there, and the error tells of that place. In the
same way the error for a text tells of a place in the text. -/

namespace Sentential

/-- After the token an operand is due. -/
def Token.isOpening : Token → Bool
  | letter _ | rparen => false
  | not | binary _ | lparen => true

/-- After the tokens an operand is due: there are none, or the last one is opening. -/
def OperandDue (tokens : List Token) : Prop :=
  ∀ t ∈ tokens.getLast?, t.isOpening = true

/-- What was found among the tokens, as the error tells it: they end where an operand is due, or
another token stands there, or a formula in parentheses is neither continued nor closed. -/
inductive Blames : List Token → ParseError → Prop
  | endOfTokens {front : List Token} : OperandDue front → Blames front .endOfTokens
  | misplaced {front rest : List Token} {t : Token} : OperandDue front →
      t ≠ .lparen → (∀ c, t ≠ .letter c) → Blames (front ++ t :: rest) (.misplaced t)
  | unclosed {front us rest : List Token} {f : Formula} : Derives .iff us f →
      (∀ t ∈ rest.head?, t ≠ .rparen ∧ ∀ c, t ≠ .binary c) →
      Blames (front ++ .lparen :: (us ++ rest)) .unclosed

section

variable {t : Token} {rest : List Token}

theorem operandDue_nil : OperandDue [] := by
  intro t ht
  cases ht

theorem OperandDue.append_cons (ht : t.isOpening = true) (h : OperandDue rest)
    (front : List Token) : OperandDue (front ++ t :: rest) := by
  intro u hu
  rw [List.getLast?_append, List.getLast?_cons] at hu
  cases hrest : rest.getLast? with
  | none =>
    obtain rfl : t = u := by simpa [hrest] using hu
    exact ht
  | some v =>
    obtain rfl : v = u := by simpa [hrest] using hu
    exact h v hrest

/-- What is found after an opening token is found in the whole. -/
theorem Blames.append_cons {e : ParseError} (ht : t.isOpening = true) (h : Blames rest e)
    (front : List Token) : Blames (front ++ t :: rest) e := by
  cases h with
  | endOfTokens hdue => exact .endOfTokens (hdue.append_cons ht front)
  | misplaced hdue hparen hletter =>
    rw [← List.cons_append, ← List.append_assoc]
    exact .misplaced (hdue.append_cons ht front) hparen hletter
  | unclosed hder hhead =>
    rw [← List.cons_append, ← List.append_assoc]
    exact .unclosed hder hhead

end

namespace Formula

variable {level : Nat} {tokens rest : List Token} {f left : Formula} {e : ParseError}

/-! A reader takes in all that it can. -/

/-- A chain goes on where it can. -/
theorem length_le_of_completes {c : Connective} {us : List Token} (hc : c.level = level)
    (h : Completes level left (.binary c :: us) f rest) : rest.length ≤ us.length := by
  obtain ⟨_, h⟩ := h
  rw [readChain, if_pos hc] at h
  split at h
  · split at h
    · cases h
    · next right after hafter _ =>
      simp only [Except.ok.injEq, Subtype.mk.injEq, Prod.mk.injEq] at h
      obtain ⟨-, rfl⟩ := h
      exact Nat.le_of_lt hafter
  · split at h
    · cases h
    · next right after hafter _ =>
      split at h
      · cases h
      · next result hresult _ =>
        simp only [Except.ok.injEq, Subtype.mk.injEq] at h
        subst h
        exact Nat.le_of_lt (Nat.lt_of_le_of_lt hresult hafter)

theorem completes_stops {n : Nat}
    (ih : ∀ us : List Token, us.length < n → ∀ level f rest, Reads level us f rest →
      Stops level rest)
    {level : Nat} {tokens rest : List Token} {left f : Formula} (hlen : tokens.length < n)
    (hstops : Stops (level - 1) tokens) (h : Completes level left tokens f rest) :
    Stops level rest := by
  obtain ⟨-, rfl⟩ | ⟨c, us, right, mid, rfl, hc, -, hright, hnext⟩ |
    ⟨us, right, rfl, rfl, hright, -⟩ := completes_inv h
  -- a chain that ends at once has no connective of its own level before it, and one of a lower level
  -- the operand would have taken in
  · rintro c us rfl
    have hlevel : c.level ≠ level := by
      intro hc
      have hle := length_le_of_completes hc h
      rw [List.length_cons] at hle
      omega
    have hlt := hstops c us rfl
    omega
  · simp only [List.length_cons] at hlen
    have hmid : mid.length < us.length := hright.choose
    exact completes_stops ih (by omega) (ih us (by omega) _ _ _ hright) hnext
  · simp only [List.length_cons] at hlen
    exact ih us (by omega) 5 _ _ hright
termination_by tokens.length
decreasing_by
  subst_vars
  simp only [List.length_cons]
  omega

theorem reads_stops (n : Nat) : ∀ tokens : List Token, tokens.length < n → ∀ (level : Nat)
    (f : Formula) (rest : List Token), Reads level tokens f rest → Stops level rest := by
  induction n with
  | zero => intro tokens hlen; omega
  | succ n ih =>
    intro tokens hlen level
    have htwo : ∀ c : Connective, 2 ≤ c.level := by
      intro c
      cases c <;> decide
    -- below level 2 there are no connectives; above, the level below reads the same tokens
    induction level with
    | zero => exact fun f rest _ c us _ => Nat.lt_of_lt_of_le Nat.two_pos (htwo c)
    | succ m ihm =>
      intro f rest h
      cases m with
      | zero => exact fun c us _ => htwo c
      | succ m =>
        obtain ⟨left, mid, hleft, hchain⟩ := reads_add_two.mp h
        have hmid : mid.length < tokens.length := hleft.choose
        exact completes_stops ih (by omega) (ihm left mid hleft) hchain

/-- What is read is a formula of the category, and nothing follows that it could take in. -/
theorem reads_append_iff {k : Category} {us : List Token} :
    Reads k.level (us ++ rest) f rest ↔ Derives k us f ∧ Stops k.level rest := by
  constructor
  · intro h
    obtain ⟨vs, hvs, hder⟩ := reads_sound _ _ (Nat.lt_succ_self _) k f rest h
    rw [List.append_cancel_right hvs]
    exact ⟨hder, reads_stops _ _ (Nat.lt_succ_self _) _ f rest h⟩
  · rintro ⟨hder, hstops⟩
    exact reads_of_derives hder (Continues.stop hstops)

theorem neither_of_reads_iff {us : List Token} (h : Reads 6 us f rest)
    (hhead : rest.head? ≠ some .rparen) :
    ∀ t ∈ rest.head?, t ≠ .rparen ∧ ∀ c, t ≠ .binary c := by
  intro t ht
  refine ⟨fun hclosing => hhead (hclosing ▸ ht), ?_⟩
  rintro c rfl
  obtain ⟨after, rfl⟩ := List.head?_eq_some_iff.mp ht
  have hlt := reads_stops _ _ (Nat.lt_succ_self _) 6 f _ h c after rfl
  cases c <;> simp [Connective.level] at hlt

/-! Why a reader returns nothing. -/

theorem error_zero_inv (h : readLevel 0 tokens = .error e) :
    (tokens = [] ∧ e = .endOfTokens) ∨
      (∃ t us, tokens = t :: us ∧ e = .misplaced t ∧ t ≠ .lparen ∧ ∀ c, t ≠ .letter c) ∨
      ∃ us, tokens = .lparen :: us ∧ (readLevel 6 us = .error e ∨
        (e = .unclosed ∧ ∃ f rest, Reads 6 us f rest ∧ rest.head? ≠ some .rparen)) := by
  cases tokens with
  | nil =>
    rw [readLevel] at h
    exact .inl ⟨rfl, (Except.error.inj h).symm⟩
  | cons t us =>
    cases t with
    | letter a =>
      rw [readLevel] at h
      cases h
    | lparen =>
      refine .inr (.inr ⟨us, rfl, ?_⟩)
      rw [readLevel] at h
      split at h
      · next heq =>
        cases h
        exact .inl heq
      · cases h
      · next result hother heq =>
        obtain ⟨⟨f, rest⟩, hlt⟩ := result
        cases h
        refine .inr ⟨rfl, f, rest, ⟨hlt, heq⟩, fun hhead => ?_⟩
        obtain ⟨after, rfl⟩ := List.head?_eq_some_iff.mp hhead
        exact hother f after hlt rfl
    | rparen | not | binary =>
      rw [readLevel] at h
      exact .inr (.inl ⟨_, us, rfl, (Except.error.inj h).symm, by simp, by simp⟩)

theorem error_one_inv (h : readLevel 1 tokens = .error e) :
    (∃ us, tokens = .not :: us ∧ readLevel 1 us = .error e) ∨ readLevel 0 tokens = .error e := by
  by_cases hnot : ∃ us, tokens = .not :: us
  · obtain ⟨us, rfl⟩ := hnot
    rw [readLevel] at h
    split at h
    · next heq =>
      cases h
      exact .inl ⟨us, rfl, heq⟩
    · cases h
  · rw [readLevel] at h
    · exact .inr h
    · exact fun us hus => hnot ⟨us, hus⟩

theorem error_add_two_inv (h : readLevel (level + 2) tokens = .error e) :
    readLevel (level + 1) tokens = .error e ∨
      ∃ left mid, Reads (level + 1) tokens left mid ∧ readChain (level + 2) left mid = .error e := by
  rw [readLevel] at h
  split at h
  · next heq =>
    cases h
    exact .inl heq
  · next left mid hmid heq =>
    split at h
    · next heq' =>
      cases h
      exact .inr ⟨left, mid, ⟨hmid, heq⟩, heq'⟩
    · cases h

/-- A chain breaks off at an operand, the first one or a later one. -/
theorem error_chain_inv (h : readChain level left tokens = .error e) :
    ∃ c us, tokens = .binary c :: us ∧
      (readLevel level us = .error e ∨ readLevel (level - 1) us = .error e ∨
        ∃ right mid, Reads (level - 1) us right mid ∧
          readChain level (.binary c left right) mid = .error e) := by
  cases tokens with
  | nil =>
    rw [readChain] at h
    cases h
  | cons t us =>
    cases t with
    | binary c =>
      rw [readChain] at h
      split at h
      · refine ⟨c, us, rfl, ?_⟩
        split at h
        · split at h
          · next heq =>
            cases h
            exact .inl heq
          · cases h
        · split at h
          · next heq =>
            cases h
            exact .inr (.inl heq)
          · next right mid hmid heq =>
            split at h
            · next heq' =>
              cases h
              exact .inr (.inr ⟨right, mid, ⟨hmid, heq⟩, heq'⟩)
            · cases h
      · cases h
    | letter | not | lparen | rparen => simp [readChain] at h

theorem chain_blames {n : Nat} {k : Category}
    (ih : ∀ us : List Token, us.length < n → ∀ k e, readLevel (Category.level k) us = .error e →
      Blames us e)
    {tokens : List Token} {left : Formula} {e : ParseError} (hlen : tokens.length < n)
    (h : readChain k.level left tokens = .error e) (front : List Token) :
    Blames (front ++ tokens) e := by
  obtain ⟨c, us, rfl, herror⟩ := error_chain_inv h
  simp only [List.length_cons] at hlen
  rcases herror with herror | herror | ⟨right, mid, hright, hnext⟩
  · exact (ih us (by omega) k e herror).append_cons rfl front
  · rw [← k.level_tighter] at herror
    exact (ih us (by omega) k.tighter e herror).append_cons rfl front
  · rw [← k.level_tighter] at hright
    obtain ⟨vs, rfl, -⟩ := reads_sound _ us (Nat.lt_succ_self _) k.tighter right mid hright
    simp only [List.length_append] at hlen
    have hblames := chain_blames ih (by omega) hnext (front ++ .binary c :: vs)
    simpa using hblames
termination_by tokens.length
decreasing_by
  subst_vars
  simp only [List.length_cons, List.length_append]
  omega

/-- An error of a reader tells of a place among the tokens that the reader was given. -/
theorem blames_of_error (n : Nat) : ∀ tokens : List Token, tokens.length < n → ∀ (k : Category)
    (e : ParseError), readLevel k.level tokens = .error e → Blames tokens e := by
  induction n with
  | zero => intro tokens hlen; omega
  | succ n ih =>
    intro tokens hlen
    -- as for what is read: nested formulas and chains have fewer tokens, the levels below the same
    suffices hlevel : ∀ m k, Category.level k = m → ∀ e, readLevel m tokens = .error e →
        Blames tokens e from
      fun k => hlevel k.level k rfl
    intro m
    induction m with
    | zero =>
      intro k hk e h
      rcases error_zero_inv h with ⟨rfl, rfl⟩ | ⟨t, us, rfl, rfl, hparen, hletter⟩ |
        ⟨us, rfl, herror | ⟨rfl, f, rest, hread, hhead⟩⟩
      · exact .endOfTokens operandDue_nil
      · exact Blames.misplaced operandDue_nil hparen hletter
      · rw [List.length_cons] at hlen
        exact (ih us (by omega) .iff e herror).append_cons rfl []
      · obtain ⟨vs, rfl, hder⟩ := reads_sound _ us (Nat.lt_succ_self _) .iff f rest hread
        show Blames ([] ++ .lparen :: (vs ++ rest)) .unclosed
        exact .unclosed hder (neither_of_reads_iff hread hhead)
    | succ m ihm =>
      intro k hk e h
      have hbelow : k.tighter.level = m := by
        rw [k.level_tighter]
        omega
      cases m with
      | zero =>
        rcases error_one_inv h with ⟨us, rfl, herror⟩ | herror
        · rw [List.length_cons] at hlen
          exact (ih us (by omega) .not e herror).append_cons rfl []
        · exact ihm k.tighter hbelow e herror
      | succ m =>
        rcases error_add_two_inv h with herror | ⟨left, mid, hleft, hchain⟩
        · exact ihm k.tighter hbelow e herror
        · rw [← hbelow] at hleft
          obtain ⟨vs, rfl, -⟩ := reads_sound _ tokens (Nat.lt_succ_self _) k.tighter left mid hleft
          have hmid : mid.length < (vs ++ mid).length := hleft.choose
          rw [← hk] at hchain
          exact chain_blames ih (by omega) hchain vs

/-! The readers as seen from the whole list of tokens. -/

/-- Reads a formula of the category at a position, and returns it with the position after it. -/
def readAt (k : Category) (tokens : List Token) (pos : Nat) : Except ParseError (Formula × Nat) :=
  (readLevel k.level (tokens.drop pos)).map fun r => (r.1.1, tokens.length - r.1.2.length)

/-- From the first position up to the second the tokens are a formula of the category, and no
connective follows that the formula could take in. -/
structure ReadsUpTo (k : Category) (tokens : List Token) (pos p : Nat) (f : Formula) : Prop where
  lt : pos < p
  le : p ≤ tokens.length
  derives : Derives k ((tokens.drop pos).take (p - pos)) f
  stops : Stops k.level (tokens.drop p)

theorem readsUpTo_iff {k : Category} {pos p : Nat} :
    ReadsUpTo k tokens pos p f ↔
      Reads k.level (tokens.drop pos) f (tokens.drop p) ∧ p ≤ tokens.length := by
  have hsplit (h : pos ≤ p) :
      tokens.drop pos = (tokens.drop pos).take (p - pos) ++ tokens.drop p := by
    have hdrop : (tokens.drop pos).drop (p - pos) = tokens.drop p := by
      rw [List.drop_drop, Nat.add_sub_cancel' h]
    rw [← hdrop, List.take_append_drop]
  constructor
  · rintro ⟨hlt, hle, hder, hstops⟩
    rw [hsplit (Nat.le_of_lt hlt)]
    exact ⟨reads_append_iff.mpr ⟨hder, hstops⟩, hle⟩
  · rintro ⟨hreads, hle⟩
    have hlt : pos < p := by
      have hshorter : (tokens.drop p).length < (tokens.drop pos).length := hreads.choose
      simp only [List.length_drop] at hshorter
      omega
    rw [hsplit (Nat.le_of_lt hlt)] at hreads
    obtain ⟨hder, hstops⟩ := reads_append_iff.mp hreads
    exact ⟨hlt, hle, hder, hstops⟩

/-- The tokens that a reader leaves are those from some position on. -/
theorem Reads.eq_drop {k : Category} {pos : Nat} (h : Reads k.level (tokens.drop pos) f rest) :
    rest = tokens.drop (tokens.length - rest.length) := by
  obtain ⟨us, hus, -⟩ := reads_sound _ _ (Nat.lt_succ_self _) k f rest h
  have hsuffix : rest <:+ tokens := List.IsSuffix.trans ⟨us, hus.symm⟩ (List.drop_suffix pos tokens)
  exact List.suffix_iff_eq_drop.mp hsuffix

theorem readAt_eq_ok {k : Category} {pos p : Nat} :
    readAt k tokens pos = .ok (f, p) ↔ ReadsUpTo k tokens pos p f := by
  constructor
  · intro h
    unfold readAt at h
    cases hread : readLevel k.level (tokens.drop pos) with
    | error e =>
      rw [hread] at h
      cases h
    | ok r =>
      obtain ⟨⟨g, rest⟩, hlt⟩ := r
      rw [hread] at h
      cases h
      have hreads : Reads k.level (tokens.drop pos) g rest := ⟨hlt, hread⟩
      rw [readsUpTo_iff, ← hreads.eq_drop]
      exact ⟨hreads, Nat.sub_le _ _⟩
  · intro h
    obtain ⟨⟨hlt, hread⟩, hle⟩ := readsUpTo_iff.mp h
    rw [readAt, hread]
    have hpos : tokens.length - (tokens.drop p).length = p := by
      rw [List.length_drop]
      omega
    rw [Except.map, hpos]

theorem blames_of_readAt {k : Category} {pos : Nat} (h : readAt k tokens pos = .error e) :
    Blames (tokens.drop pos) e := by
  unfold readAt at h
  cases hread : readLevel k.level (tokens.drop pos) with
  | error e' =>
    rw [hread] at h
    cases h
    exact blames_of_error _ _ (Nat.lt_succ_self _) k e hread
  | ok r =>
    rw [hread] at h
    cases h

/-- Tokens that are no formula have a place where another token was due, or a formula ends before
they do. -/
theorem blames_of_ofTokens (hne : tokens ≠ []) (h : ofTokens tokens = .error e) :
    Blames tokens e ∨ ∃ i t f, e = .leftover i t ∧ ReadsUpTo .iff tokens 0 i f ∧
      tokens[i]? = some t := by
  rw [ofTokens, if_neg (by simpa using hne)] at h
  split at h
  · next e' heq =>
    cases h
    exact .inl (blames_of_error _ _ (Nat.lt_succ_self _) .iff e heq)
  · cases h
  · next f t rest hlt heq =>
    cases h
    have hreads : Reads (Category.level .iff) (tokens.drop 0) f (t :: rest) := ⟨hlt, heq⟩
    have hdrop := hreads.eq_drop
    rw [List.length_cons] at hdrop
    refine .inr ⟨_, t, f, rfl, readsUpTo_iff.mpr ⟨hdrop ▸ hreads, Nat.sub_le _ _⟩, ?_⟩
    rw [← List.head?_drop, ← hdrop, List.head?_cons]

end Formula

/-! Why a text is not a sentence. -/

/-- Neither a blank nor a token begins the text. -/
def Token.StartsNone (text : List Char) : Prop :=
  (∀ c ∈ text.head?, Text.isBlank c = false ∧ ofChar? c = none) ∧
    (∀ rest, text ≠ '-' :: '>' :: rest) ∧ ∀ rest, text ≠ '<' :: '-' :: '>' :: rest

/-- What the error tells of a text without blanks at its ends. -/
inductive Explains (source : List Char) : ParseError → Prop
  | blankText : source = [] → Explains source .blankText
  | badCharacter {front rest : List Char} {c : Char} {ts : List Token} :
      source = front ++ c :: rest → Scans front ts → Token.StartsNone (c :: rest) →
      Explains source (.badCharacter c front.length)
  | blames {ts : List Token} {e : ParseError} :
      Scans source ts → Blames ts e → Explains source e
  | leftover {ts : List Token} {i : Nat} {t : Token} {f : Formula} :
      Scans source ts → Formula.ReadsUpTo .iff ts 0 i f → ts[i]? = some t →
      Explains source (.leftover i t)

theorem Token.cons_map_eq_error {t : Token} {x : Except ParseError (List Token)} {e : ParseError}
    (h : (t :: ·) <$> x = .error e) : x = .error e := by
  cases x with
  | error e' => cases h; rfl
  | ok us => cases h

theorem Token.scanFrom_error {text : List Char} {i : Nat} {e : ParseError}
    (h : scanFrom i text = .error e) :
    ∃ front c rest ts, text = front ++ c :: rest ∧ Scans front ts ∧ StartsNone (c :: rest) ∧
      e = .badCharacter c (i + front.length) := by
  induction i, text using scanFrom.induct with
  | case1 i => cases h
  | case2 i text ih =>
    rw [scanFrom.eq_2] at h
    obtain ⟨front, c, rest, ts, rfl, hscan, hnone, rfl⟩ := ih (cons_map_eq_error h)
    exact ⟨'-' :: '>' :: front, c, rest, _, rfl, .arrow hscan, hnone, by simp; omega⟩
  | case3 i text ih =>
    rw [scanFrom.eq_3] at h
    obtain ⟨front, c, rest, ts, rfl, hscan, hnone, rfl⟩ := ih (cons_map_eq_error h)
    exact ⟨'<' :: '-' :: '>' :: front, c, rest, _, rfl, .doubleArrow hscan, hnone, by simp; omega⟩
  | case4 i a text _ _ hblank ih =>
    rw [scanFrom_cons (isBlank_ne_arrow hblank), if_pos hblank] at h
    obtain ⟨front, c, rest, ts, rfl, hscan, hnone, rfl⟩ := ih h
    exact ⟨a :: front, c, rest, _, rfl, .blank hblank hscan, hnone, by simp; omega⟩
  | case5 i a text _ _ hblank t ht ih =>
    rw [scanFrom_cons (ofChar?_ne_arrow ht), if_neg hblank, ht] at h
    obtain ⟨front, c, rest, ts, rfl, hscan, hnone, rfl⟩ := ih (cons_map_eq_error h)
    have hsign : Text.isBlank a = false := by simpa using hblank
    exact ⟨a :: front, c, rest, _, rfl, .sign hsign ht hscan, hnone, by simp; omega⟩
  | case6 i a text hdash hangle hblank hnone =>
    rw [scanFrom.eq_4 i a text hdash hangle, if_neg hblank, hnone] at h
    cases h
    refine ⟨[], a, text, [], rfl, .nil, ⟨?_, ?_, ?_⟩, rfl⟩
    · simpa using And.intro hblank hnone
    · rintro rest ⟨rfl, rfl⟩
      exact hdash rest rfl rfl
    · rintro rest ⟨rfl, rfl⟩
      exact hangle rest rfl rfl

/-- A text without tokens is blank. -/
theorem Scans.trim_eq_nil {text : List Char} (h : Scans text []) : Text.trim text = [] := by
  have hdrop : text.dropWhile Text.isBlank = [] := by
    induction text with
    | nil => rfl
    | cons c text ih =>
      cases h with
      | blank hc h =>
        rw [List.dropWhile_cons_of_pos hc]
        exact ih h
  rw [Text.trim, hdrop]
  rfl

theorem Formula.explains_of_parse {source : List Char} {e : ParseError}
    (hsource : ¬ Scans source []) (h : Formula.parse source = .error e) : Explains source e := by
  unfold Formula.parse at h
  split at h
  · next hscan =>
    cases h
    obtain ⟨front, c, rest, ts, hsplit, hfront, hnone, rfl⟩ := Token.scanFrom_error hscan
    rw [Nat.zero_add]
    exact .badCharacter hsplit hfront hnone
  · next ts hscan =>
    have hscans : Scans source ts := scan_eq_ok.mp hscan
    have hne : ts ≠ [] := fun hnil => hsource (hnil ▸ hscans)
    rcases blames_of_ofTokens hne h with hblames | ⟨i, t, f, rfl, hread, ht⟩
    · exact .blames hscans hblames
    · exact .leftover hscans hread ht

theorem Sentence.explains_of_read {text : List Char} {e : ParseError}
    (h : Sentence.read text = .error e) : Explains (Text.trim text) e := by
  simp only [Sentence.read] at h
  split at h
  · next hempty =>
    cases h
    exact .blankText (List.isEmpty_iff.mp hempty)
  · next hempty =>
    split at h
    · next hparse =>
      cases h
      refine Formula.explains_of_parse (fun hnil => hempty ?_) hparse
      exact List.isEmpty_iff.mpr (Scans.trim_iff.mp hnil).trim_eq_nil
    · cases h

/-- At every position of a list of tokens each reader ends. It returns a later position, not after
the end of the list, up to which the tokens are a formula that nothing continues; or there is none,
and the error tells what was found in its place. So a text is a sentence with a formula that its
tokens derive, or the error tells why it is not. -/
theorem readers_stay_in_bounds :
    (∀ (k : Category) (tokens : List Token) (pos : Nat),
      (∃ f p, Formula.readAt k tokens pos = .ok (f, p) ∧ Formula.ReadsUpTo k tokens pos p f) ∨
        ∃ e, Formula.readAt k tokens pos = .error e ∧ Blames (tokens.drop pos) e ∧
          ∀ f p, ¬ Formula.ReadsUpTo k tokens pos p f) ∧
      ∀ text : List Char,
        (∃ ts f, Scans text ts ∧ Derives .iff ts f ∧
          Sentence.read text = .ok ⟨Text.trim text, some f, f.letters⟩) ∨
          ∃ e, Sentence.read text = .error e ∧ Explains (Text.trim text) e ∧
            ∀ ts f, Scans text ts → ¬ Derives .iff ts f := by
  constructor
  · intro k tokens pos
    cases hread : Formula.readAt k tokens pos with
    | ok r => exact .inl ⟨r.1, r.2, rfl, Formula.readAt_eq_ok.mp hread⟩
    | error e =>
      refine .inr ⟨e, rfl, Formula.blames_of_readAt hread, fun f p h => ?_⟩
      rw [Formula.readAt_eq_ok.mpr h] at hread
      cases hread
  · intro text
    by_cases hder : ∃ ts f, Scans text ts ∧ Derives .iff ts f
    · obtain ⟨ts, f, hscan, hder⟩ := hder
      exact .inl ⟨ts, f, hscan, hder, Sentence.read_of_derives hscan hder⟩
    · cases hread : Sentence.read text with
      | ok s =>
        obtain ⟨ts, f, hscan, hf, rfl⟩ := Sentence.derives_of_read hread
        exact absurd ⟨ts, f, Scans.trim_iff.mp hscan, hf⟩ hder
      | error e =>
        exact .inr ⟨e, rfl, Sentence.explains_of_read hread,
          fun ts f hscan hf => hder ⟨ts, f, hscan, hf⟩⟩

end Sentential
