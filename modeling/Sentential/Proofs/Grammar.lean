import Sentential.Formula.Parser

/-! The grammar of formulas and its agreement with the readers. `Derives` states the grammar
category by category; `readLevel` and `readChain` are seen through the relations `Reads` and
`Completes`, which leave out the bounds on the remaining tokens. Reading is sound because each
reader consumes a derivable part of the tokens, and complete because a derivable part is consumed
whole when no connective follows it that its category could take in. -/

namespace Sentential

/-- The syntactic categories, from the loosest to the tightest. -/
inductive Category where
  | iff
  | implies
  | or
  | xor
  | and
  | not
  | atom
deriving DecidableEq, Repr

namespace Category

/-- The level at which a category is read. -/
def level : Category → Nat
  | iff => 6
  | implies => 5
  | or => 4
  | xor => 3
  | and => 2
  | not => 1
  | atom => 0

/-- The next tighter category; an atom has none. -/
def tighter : Category → Category
  | iff => implies
  | implies => or
  | or => xor
  | xor => and
  | and => not
  | not => atom
  | atom => atom

theorem level_tighter (k : Category) : k.tighter.level = k.level - 1 := by
  cases k <;> rfl

end Category

/-- The tokens derive the formula in the category. Chains of conjunctions, exclusive and inclusive
disjunctions and biconditionals group to the left, chains of conditionals to the right. -/
inductive Derives : Category → List Token → Formula → Prop
  | letter (c : Char) : Derives .atom [.letter c] (.letter c)
  | parens {ts : List Token} {f : Formula} :
      Derives .iff ts f → Derives .atom (.lparen :: (ts ++ [.rparen])) f
  | atom {ts : List Token} {f : Formula} : Derives .atom ts f → Derives .not ts f
  | negation {ts : List Token} {f : Formula} :
      Derives .not ts f → Derives .not (.not :: ts) (.not f)
  | not {ts : List Token} {f : Formula} : Derives .not ts f → Derives .and ts f
  | conjunction {c : Connective} {ts us : List Token} {f g : Formula} :
      c = .and ∨ c = .nand → Derives .and ts f → Derives .not us g →
      Derives .and (ts ++ .binary c :: us) (.binary c f g)
  | and {ts : List Token} {f : Formula} : Derives .and ts f → Derives .xor ts f
  | exclusion {ts us : List Token} {f g : Formula} :
      Derives .xor ts f → Derives .and us g →
      Derives .xor (ts ++ .binary .xor :: us) (.binary .xor f g)
  | xor {ts : List Token} {f : Formula} : Derives .xor ts f → Derives .or ts f
  | disjunction {c : Connective} {ts us : List Token} {f g : Formula} :
      c = .or ∨ c = .nor → Derives .or ts f → Derives .xor us g →
      Derives .or (ts ++ .binary c :: us) (.binary c f g)
  | or {ts : List Token} {f : Formula} : Derives .or ts f → Derives .implies ts f
  | conditional {ts us : List Token} {f g : Formula} :
      Derives .or ts f → Derives .implies us g →
      Derives .implies (ts ++ .binary .implies :: us) (.binary .implies f g)
  | implies {ts : List Token} {f : Formula} : Derives .implies ts f → Derives .iff ts f
  | biconditional {ts us : List Token} {f g : Formula} :
      Derives .iff ts f → Derives .implies us g →
      Derives .iff (ts ++ .binary .iff :: us) (.binary .iff f g)

namespace Derives

variable {k : Category} {c : Connective} {ts us : List Token} {f g : Formula}

theorem loosen (h : Derives k.tighter ts f) : Derives k ts f := by
  cases k with
  | iff => exact .implies h
  | implies => exact .or h
  | or => exact .xor h
  | xor => exact .and h
  | and => exact .not h
  | not => exact .atom h
  | atom => exact h

/-- A chain grows to the right by one operand of the next tighter category. -/
theorem chain (hc : c.level = k.level) (hne : c ≠ .implies) (hf : Derives k ts f)
    (hg : Derives k.tighter us g) : Derives k (ts ++ .binary c :: us) (.binary c f g) := by
  cases k with
  | iff =>
    obtain rfl : c = .iff := by revert hc; cases c <;> decide
    exact .biconditional hf hg
  | implies => exact absurd (by revert hc; cases c <;> decide) hne
  | or =>
    have hc' : c = .or ∨ c = .nor := by revert hc; cases c <;> decide
    exact .disjunction hc' hf hg
  | xor =>
    obtain rfl : c = .xor := by revert hc; cases c <;> decide
    exact .exclusion hf hg
  | and =>
    have hc' : c = .and ∨ c = .nand := by revert hc; cases c <;> decide
    exact .conjunction hc' hf hg
  | not => exact absurd hc (by cases c <;> decide)
  | atom => exact absurd hc (by cases c <;> decide)

/-- Induction over a derivation with one case for all chains and one for all steps to a looser
category. -/
@[elab_as_elim]
theorem by_level {motive : ∀ k ts f, Derives k ts f → Prop}
    (letter : ∀ c, motive _ _ _ (.letter c))
    (parens : ∀ ts f (h : Derives .iff ts f), motive _ _ _ h → motive _ _ _ (.parens h))
    (negation : ∀ ts f (h : Derives .not ts f), motive _ _ _ h → motive _ _ _ (.negation h))
    (loosen : ∀ k ts f (_ : k ≠ .atom) (h : Derives k.tighter ts f), motive _ _ _ h →
      motive k ts f h.loosen)
    (chain : ∀ k (c : Connective) ts us f g (hc : c.level = k.level) (hne : c ≠ .implies)
      (hf : Derives k ts f) (hg : Derives k.tighter us g), motive _ _ _ hf → motive _ _ _ hg →
      motive _ _ _ (hf.chain hc hne hg))
    (conditional : ∀ ts us f g (hf : Derives .or ts f) (hg : Derives .implies us g),
      motive _ _ _ hf → motive _ _ _ hg → motive _ _ _ (.conditional hf hg))
    (h : Derives k ts f) : motive k ts f h := by
  induction h with
  | letter c => exact letter c
  | parens h ih => exact parens _ _ h ih
  | negation h ih => exact negation _ _ h ih
  | atom h ih => exact loosen .not _ _ (by decide) h ih
  | not h ih => exact loosen .and _ _ (by decide) h ih
  | and h ih => exact loosen .xor _ _ (by decide) h ih
  | xor h ih => exact loosen .or _ _ (by decide) h ih
  | or h ih => exact loosen .implies _ _ (by decide) h ih
  | implies h ih => exact loosen .iff _ _ (by decide) h ih
  | conjunction hc h1 h2 ih1 ih2 =>
    exact chain .and _ _ _ _ _ (by obtain rfl | rfl := hc <;> rfl)
      (by obtain rfl | rfl := hc <;> decide) h1 h2 ih1 ih2
  | exclusion h1 h2 ih1 ih2 => exact chain .xor _ _ _ _ _ rfl (by decide) h1 h2 ih1 ih2
  | disjunction hc h1 h2 ih1 ih2 =>
    exact chain .or _ _ _ _ _ (by obtain rfl | rfl := hc <;> rfl)
      (by obtain rfl | rfl := hc <;> decide) h1 h2 ih1 ih2
  | biconditional h1 h2 ih1 ih2 => exact chain .iff _ _ _ _ _ rfl (by decide) h1 h2 ih1 ih2
  | conditional h1 h2 ih1 ih2 => exact conditional _ _ _ _ h1 h2 ih1 ih2

end Derives

namespace Formula

/-- The reader of a level gives the formula from the front of the tokens and leaves the rest. -/
def Reads (level : Nat) (tokens : List Token) (f : Formula) (rest : List Token) : Prop :=
  ∃ h, readLevel level tokens = .ok ⟨(f, rest), h⟩

/-- The chain of a level that begins with `left` is completed to the formula. -/
def Completes (level : Nat) (left : Formula) (tokens : List Token) (f : Formula)
    (rest : List Token) : Prop :=
  ∃ h, readChain level left tokens = .ok ⟨(f, rest), h⟩

section

-- The equations of the readers are made here, once for all proofs that unfold them.
attribute [local grind =] readLevel readChain

variable {level : Nat} {tokens rest : List Token} {f left : Formula} {c : Connective}

theorem reads_letter (a : Char) : Reads 0 (.letter a :: rest) (.letter a) rest :=
  ⟨by simp, by rw [readLevel]⟩

theorem reads_parens (h : Reads 6 tokens f (.rparen :: rest)) :
    Reads 0 (.lparen :: tokens) f rest := by
  obtain ⟨hlt, h⟩ := h
  refine ⟨by simp at hlt ⊢; omega, ?_⟩
  rw [readLevel, h]

theorem reads_zero_inv (h : Reads 0 tokens f rest) :
    (∃ a, tokens = .letter a :: rest ∧ f = .letter a) ∨
      ∃ us, tokens = .lparen :: us ∧ Reads 6 us f (.rparen :: rest) := by
  obtain ⟨hlt, h⟩ := h
  cases tokens with
  | nil => simp [readLevel] at h
  | cons t us =>
    cases t with
    | letter a =>
      simp only [readLevel, Except.ok.injEq, Subtype.mk.injEq, Prod.mk.injEq] at h
      obtain ⟨rfl, rfl⟩ := h
      exact .inl ⟨a, rfl, rfl⟩
    | lparen =>
      rw [readLevel] at h
      split at h
      · cases h
      · next g after hafter heq =>
        simp only [Except.ok.injEq, Subtype.mk.injEq, Prod.mk.injEq] at h
        obtain ⟨rfl, rfl⟩ := h
        exact .inr ⟨us, rfl, hafter, heq⟩
      · cases h
    | rparen => simp [readLevel] at h
    | not => simp [readLevel] at h
    | binary c => simp [readLevel] at h

theorem reads_negation (h : Reads 1 tokens f rest) :
    Reads 1 (.not :: tokens) (.not f) rest := by
  obtain ⟨hlt, h⟩ := h
  refine ⟨by simp at hlt ⊢; omega, ?_⟩
  rw [readLevel, h]

theorem reads_one_of_zero (h : Reads 0 tokens f rest) : Reads 1 tokens f rest := by
  have hne : ∀ us, tokens ≠ .not :: us := by
    rintro us rfl
    obtain ⟨_, hc, _⟩ | ⟨_, hc, _⟩ := reads_zero_inv h
    · cases hc
    · cases hc
  obtain ⟨hlt, h⟩ := h
  refine ⟨hlt, ?_⟩
  rw [readLevel, h]
  exact hne

theorem reads_one_inv (h : Reads 1 tokens f rest) :
    (∃ us g, tokens = .not :: us ∧ f = .not g ∧ Reads 1 us g rest) ∨ Reads 0 tokens f rest := by
  obtain ⟨hlt, h⟩ := h
  by_cases hnot : ∃ us, tokens = .not :: us
  · obtain ⟨us, rfl⟩ := hnot
    rw [readLevel] at h
    split at h
    · cases h
    · next g after hafter heq =>
      simp only [Except.ok.injEq, Subtype.mk.injEq, Prod.mk.injEq] at h
      obtain ⟨rfl, rfl⟩ := h
      exact .inl ⟨us, g, rfl, rfl, hafter, heq⟩
  · rw [readLevel] at h
    · exact .inr ⟨hlt, h⟩
    · exact fun us hus => hnot ⟨us, hus⟩

/-- Above the negations, a reader reads at the next tighter level and completes the chain. -/
theorem reads_add_two :
    Reads (level + 2) tokens f rest ↔
      ∃ left mid, Reads (level + 1) tokens left mid ∧ Completes (level + 2) left mid f rest := by
  constructor
  · rintro ⟨hlt, h⟩
    rw [readLevel] at h
    split at h
    · cases h
    · next left mid hmid heq =>
      split at h
      · cases h
      · next result hresult heq' =>
        simp only [Except.ok.injEq, Subtype.mk.injEq] at h
        subst h
        exact ⟨left, mid, ⟨hmid, heq⟩, hresult, heq'⟩
  · rintro ⟨left, mid, ⟨hmid, heq⟩, hle, heq'⟩
    refine ⟨by simp at hmid hle ⊢; omega, ?_⟩
    rw [readLevel, heq]
    simp only [heq']

/-- The tokens do not begin with a connective of the level or of a tighter one. -/
def Stops (level : Nat) (tokens : List Token) : Prop :=
  ∀ c us, tokens = .binary c :: us → level < c.level

theorem Stops.mono {level' : Nat} (h : Stops level tokens) (hle : level' ≤ level) :
    Stops level' tokens :=
  fun c us hus => Nat.lt_of_le_of_lt hle (h c us hus)

theorem stops_nil : Stops level [] := fun _ _ h => nomatch h

theorem stops_rparen : Stops level (.rparen :: tokens) := fun _ _ h => nomatch h

theorem stops_binary (h : level < c.level) : Stops level (.binary c :: tokens) := by
  rintro c' us heq
  cases heq
  exact h

theorem completes_stop (h : Stops level tokens) : Completes level left tokens left tokens := by
  refine ⟨by simp, ?_⟩
  cases tokens with
  | nil => rw [readChain]
  | cons t us =>
    cases t with
    | binary c =>
      have hc : c.level ≠ level := Nat.ne_of_gt (h c us rfl)
      rw [readChain, if_neg hc]
    | letter a => simp [readChain]
    | not => simp [readChain]
    | lparen => simp [readChain]
    | rparen => simp [readChain]

theorem completes_chain {us mid : List Token} {right : Formula} (hc : c.level = level)
    (hne : c ≠ .implies) (hright : Reads (level - 1) us right mid)
    (h : Completes level (.binary c left right) mid f rest) :
    Completes level left (.binary c :: us) f rest := by
  obtain ⟨hmid, heq⟩ := hright
  obtain ⟨hle, heq'⟩ := h
  refine ⟨by simp at hmid hle ⊢; omega, ?_⟩
  rw [readChain, if_pos hc, if_neg hne, heq]
  simp only [heq']

theorem completes_conditional {us : List Token} {right : Formula} (h : Reads 5 us right rest) :
    Completes 5 left (.binary .implies :: us) (.binary .implies left right) rest := by
  obtain ⟨hlt, heq⟩ := h
  refine ⟨by simp at hlt ⊢; omega, ?_⟩
  rw [readChain, if_pos (show Connective.level .implies = 5 from rfl), if_pos rfl, heq]

/-- A chain stops, goes on to the left, or ends with a conditional. -/
theorem completes_inv (h : Completes level left tokens f rest) :
    (f = left ∧ rest = tokens) ∨
      (∃ c us right mid, tokens = .binary c :: us ∧ c.level = level ∧ c ≠ .implies ∧
        Reads (level - 1) us right mid ∧ Completes level (.binary c left right) mid f rest) ∨
      ∃ us right, tokens = .binary .implies :: us ∧ level = 5 ∧ Reads 5 us right rest ∧
        f = .binary .implies left right := by
  obtain ⟨hle, h⟩ := h
  cases tokens with
  | nil =>
    simp only [readChain, Except.ok.injEq, Subtype.mk.injEq, Prod.mk.injEq] at h
    exact .inl ⟨h.1.symm, h.2.symm⟩
  | cons t us =>
    cases t with
    | binary c =>
      rw [readChain] at h
      split at h
      · next hc =>
        split at h
        · next himp =>
          subst himp
          split at h
          · cases h
          · next right after hafter heq =>
            simp only [Except.ok.injEq, Subtype.mk.injEq, Prod.mk.injEq] at h
            obtain ⟨rfl, rfl⟩ := h
            obtain rfl : level = 5 := hc.symm
            exact .inr (.inr ⟨us, right, rfl, rfl, ⟨hafter, heq⟩, rfl⟩)
        · next hne =>
          split at h
          · cases h
          · next right mid hmid heq =>
            split at h
            · cases h
            · next result hresult heq' =>
              simp only [Except.ok.injEq, Subtype.mk.injEq] at h
              subst h
              exact .inr (.inl ⟨c, us, right, mid, rfl, hc, hne, ⟨hmid, heq⟩, hresult, heq'⟩)
      · simp only [Except.ok.injEq, Subtype.mk.injEq, Prod.mk.injEq] at h
        exact .inl ⟨h.1.symm, h.2.symm⟩
    | letter a => simp_all [readChain]
    | not => simp_all [readChain]
    | lparen => simp_all [readChain]
    | rparen => simp_all [readChain]

end

/-- What a chain that begins with a derivable part consumes extends that part to a derivable one.
The first operand of a conditional is no conditional itself. -/
theorem completes_sound {n : Nat} {k : Category}
    (ih : ∀ us, us.length < n → ∀ k f rest, Reads (Category.level k) us f rest →
      ∃ vs, us = vs ++ rest ∧ Derives k vs f)
    {tokens rest : List Token} {left f : Formula} (hlen : tokens.length < n)
    (h : Completes k.level left tokens f rest) {ts : List Token}
    (hleft : Derives (if k = .implies then .or else k) ts left) :
    ∃ us, tokens = us ++ rest ∧ Derives k (ts ++ us) f := by
  obtain ⟨rfl, rfl⟩ | ⟨c, us, right, mid, rfl, hc, hne, hright, hnext⟩ |
    ⟨us, right, rfl, hk, hright, rfl⟩ := completes_inv h
  · refine ⟨[], rfl, ?_⟩
    rw [List.append_nil]
    split at hleft
    · next hk => subst hk; exact .or hleft
    · exact hleft
  · have hk : k ≠ .implies := by
      rintro rfl
      exact hne (by revert hc; cases c <;> decide)
    rw [if_neg hk] at hleft
    rw [← k.level_tighter] at hright
    simp only [List.length_cons] at hlen
    obtain ⟨vs, rfl, hvs⟩ := ih us (by omega) _ _ _ hright
    simp only [List.length_append] at hlen
    obtain ⟨ws, rfl, hws⟩ := completes_sound ih (by omega) hnext
      (by rw [if_neg hk]; exact hleft.chain hc hne hvs)
    exact ⟨.binary c :: (vs ++ ws), by simp, by simpa using hws⟩
  · obtain rfl : k = .implies := by revert hk; cases k <;> decide
    simp only [List.length_cons] at hlen
    obtain ⟨vs, rfl, hvs⟩ := ih us (by omega) .implies _ _ hright
    exact ⟨.binary .implies :: vs, rfl, .conditional hleft hvs⟩
termination_by tokens.length
decreasing_by
  subst_vars
  simp only [List.length_cons, List.length_append]
  omega

/-- A reader consumes a part of the tokens that derives the formula in its category. -/
theorem reads_sound (n : Nat) : ∀ tokens : List Token, tokens.length < n → ∀ (k : Category)
    (f : Formula) (rest : List Token), Reads k.level tokens f rest →
      ∃ us, tokens = us ++ rest ∧ Derives k us f := by
  induction n with
  | zero => intro tokens h; omega
  | succ n ih =>
    intro tokens hlen
    -- nested formulas and chains have fewer tokens; the levels below read the same tokens
    suffices hlevel : ∀ m k, Category.level k = m → ∀ f rest, Reads m tokens f rest →
        ∃ us, tokens = us ++ rest ∧ Derives k us f from
      fun k => hlevel k.level k rfl
    intro m
    induction m with
    | zero =>
      intro k hk f rest h
      obtain rfl : k = .atom := by revert hk; cases k <;> decide
      obtain ⟨a, rfl, rfl⟩ | ⟨us, rfl, hinner⟩ := reads_zero_inv h
      · exact ⟨[.letter a], rfl, .letter a⟩
      · simp only [List.length_cons] at hlen
        obtain ⟨vs, rfl, hvs⟩ := ih us (by omega) .iff _ _ hinner
        exact ⟨.lparen :: (vs ++ [.rparen]), by simp, .parens hvs⟩
    | succ m ihm =>
      intro k hk f rest h
      cases m with
      | zero =>
        obtain rfl : k = .not := by revert hk; cases k <;> decide
        obtain ⟨us, g, rfl, rfl, hinner⟩ | hinner := reads_one_inv h
        · simp only [List.length_cons] at hlen
          obtain ⟨vs, rfl, hvs⟩ := ih us (by omega) .not _ _ hinner
          exact ⟨.not :: vs, rfl, .negation hvs⟩
        · obtain ⟨us, hus, hder⟩ := ihm .atom rfl _ _ hinner
          exact ⟨us, hus, .atom hder⟩
      | succ m =>
        obtain ⟨left, mid, hleft, hchain⟩ := reads_add_two.mp h
        obtain ⟨vs, rfl, hvs⟩ := ihm k.tighter (by rw [k.level_tighter]; omega) _ _ hleft
        have hmid : mid.length < n := by
          obtain ⟨hlt, _⟩ := hleft
          simp only at hlt
          omega
        have hfirst : Derives (if k = .implies then .or else k) vs left := by
          split
          · next himp => subst himp; exact hvs
          · exact hvs.loosen
        rw [← hk] at hchain
        obtain ⟨us, rfl, hus⟩ := completes_sound ih hmid hchain hfirst
        exact ⟨vs ++ us, by simp, hus⟩

/-- How a reading in a category that has come to `f` may go on. A chain that groups to the left
goes on from what it has; in the other categories nothing that follows is taken in. -/
structure Continues (k : Category) (f : Formula) (tokens : List Token) (g : Formula)
    (rest : List Token) : Prop where
  completes : Completes k.level f tokens g rest
  stops : Stops (k.level - 1) tokens
  closed : k.level ≤ 1 ∨ k = .implies → g = f ∧ rest = tokens ∧ Stops k.level tokens

theorem Continues.stop {k : Category} {f : Formula} {tokens : List Token}
    (h : Stops k.level tokens) : Continues k f tokens f tokens :=
  ⟨completes_stop h, h.mono (Nat.sub_le _ _), fun _ => ⟨rfl, rfl, h⟩⟩

/-- A derivable part at the front of the tokens is read, and the reading goes on from it. -/
theorem reads_of_derives {k : Category} {ts : List Token} {f : Formula} (h : Derives k ts f) :
    ∀ {tokens g rest}, Continues k f tokens g rest → Reads k.level (ts ++ tokens) g rest := by
  induction h using Derives.by_level with
  | letter c =>
    intro tokens g rest hgo
    obtain ⟨rfl, rfl, -⟩ := hgo.closed (.inl (by decide))
    exact reads_letter c
  | parens ts f _ ih =>
    intro tokens g rest hgo
    obtain ⟨rfl, rfl, -⟩ := hgo.closed (.inl (by decide))
    have hstop : Stops Category.iff.level (.rparen :: rest) := stops_rparen
    rw [List.cons_append, List.append_assoc]
    exact reads_parens (ih (Continues.stop hstop))
  | negation ts f _ ih =>
    intro tokens g rest hgo
    obtain ⟨rfl, rfl, hstop⟩ := hgo.closed (.inl (by decide))
    exact reads_negation (ih (Continues.stop hstop))
  | loosen k ts f hk _ ih =>
    intro tokens g rest hgo
    have hstop : Stops k.tighter.level tokens := by
      rw [k.level_tighter]
      exact hgo.stops
    have hread := ih (Continues.stop hstop)
    by_cases hnot : k = .not
    · subst hnot
      obtain ⟨rfl, rfl, -⟩ := hgo.closed (.inl (by decide))
      exact reads_one_of_zero hread
    · obtain ⟨m, hm⟩ : ∃ m, k.level = m + 2 := by
        revert hk hnot
        cases k <;> simp [Category.level]
      have hgo' := hgo.completes
      rw [k.level_tighter, hm] at hread
      rw [hm] at hgo' ⊢
      exact reads_add_two.mpr ⟨f, tokens, hread, hgo'⟩
  | chain k c ts us f g hc hne _ _ ihf ihg =>
    intro tokens g' rest hgo
    have htwo : 2 ≤ c.level := by cases c <;> decide
    have hright : Reads (k.level - 1) (us ++ tokens) g tokens := by
      rw [← k.level_tighter]
      exact ihg (Continues.stop (by rw [k.level_tighter]; exact hgo.stops))
    rw [List.append_assoc, List.cons_append]
    refine ihf ⟨completes_chain hc hne hright hgo.completes, stops_binary (by omega), ?_⟩
    rintro (hle | rfl)
    · omega
    · exact absurd (by revert hc; cases c <;> decide) hne
  | conditional ts us f g _ _ ihf ihg =>
    intro tokens g' rest hgo
    obtain ⟨rfl, rfl, hstop⟩ := hgo.closed (.inr rfl)
    have hright := ihg (Continues.stop hstop)
    rw [List.append_assoc, List.cons_append]
    have hor : Stops Category.or.level (.binary .implies :: (us ++ rest)) :=
      stops_binary (by decide)
    exact reads_add_two.mpr ⟨f, _, ihf (Continues.stop hor), completes_conditional hright⟩

theorem reads_iff_derives {k : Category} {tokens : List Token} {f : Formula} :
    Reads k.level tokens f [] ↔ Derives k tokens f := by
  constructor
  · intro h
    obtain ⟨us, rfl, hus⟩ := reads_sound _ tokens (Nat.lt_succ_self _) k f [] h
    rwa [List.append_nil]
  · intro h
    have hread := reads_of_derives h (Continues.stop stops_nil)
    rwa [List.append_nil] at hread

theorem ofTokens_eq_ok {tokens : List Token} {f : Formula} :
    ofTokens tokens = .ok f ↔ Derives .iff tokens f := by
  rw [← reads_iff_derives]
  constructor
  · intro h
    unfold ofTokens at h
    split at h
    · cases h
    · split at h
      · cases h
      · next g hg heq =>
        cases h
        exact ⟨hg, heq⟩
      · cases h
  · rintro ⟨hlt, heq⟩
    have hne : tokens ≠ [] := by
      rintro rfl
      simp at hlt
    rw [ofTokens, if_neg (by simpa using hne), show readLevel 6 tokens = _ from heq]

theorem derives_unique {tokens : List Token} {f g : Formula} (hf : Derives .iff tokens f)
    (hg : Derives .iff tokens g) : f = g :=
  Except.ok.inj ((ofTokens_eq_ok.mpr hf).symm.trans (ofTokens_eq_ok.mpr hg))

/-- A list of tokens is read as a formula, with no token left over, exactly if the grammar derives
the formula from it; and it derives at most one. -/
theorem ofTokens_iff_grammar (tokens : List Token) :
    (∀ f, ofTokens tokens = .ok f ↔ Derives .iff tokens f) ∧
      ∀ f g, Derives .iff tokens f → Derives .iff tokens g → f = g :=
  ⟨fun _ => ofTokens_eq_ok, fun _ _ => derives_unique⟩

end Formula

end Sentential
