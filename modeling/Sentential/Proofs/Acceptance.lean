import Sentential.Proofs.Drafts

/-! Whether tokens write a formula at all does not depend on how tightly the connectives bind. One
pass from left to right tells, which keeps no more than what is due next and how many parentheses
are open. Such a pass goes over any formula of the grammar, and leaves an operator due. Conversely,
a pass that begins where an operand is due and ends well goes over an operand first, then over
further operands with connectives between them, up to a parenthesis that was open before; and
operands with any connectives between them are a formula, whatever the connectives. -/

namespace Sentential

/-- What is due next in a formula that is gone over from left to right. -/
inductive Due where
  | operand
  | operator
deriving DecidableEq, Repr

/-- What is due next, and how many parentheses are open. -/
structure Outlook where
  due : Due
  opened : Nat
deriving DecidableEq, Repr

namespace Outlook

/-- The outlook after a token, if the token may come next. -/
def next : Outlook → Token → Option Outlook
  | ⟨.operand, d⟩, .not => some ⟨.operand, d⟩
  | ⟨.operand, d⟩, .lparen => some ⟨.operand, d + 1⟩
  | ⟨.operand, d⟩, .letter _ => some ⟨.operator, d⟩
  | ⟨.operator, d⟩, .binary _ => some ⟨.operand, d⟩
  | ⟨.operator, d + 1⟩, .rparen => some ⟨.operator, d⟩
  | _, _ => none

/-- The outlook after all of the tokens, if each of them may come next in its turn. -/
def after (o : Outlook) (tokens : List Token) : Option Outlook :=
  tokens.foldlM next o

/-- Whether a pass over the tokens ends where an operator is due and no parenthesis is open. -/
def accepts (tokens : List Token) : Bool :=
  after ⟨.operand, 0⟩ tokens = some ⟨.operator, 0⟩

theorem after_cons (o : Outlook) (t : Token) (tokens : List Token) :
    o.after (t :: tokens) = (o.next t).bind fun o' => o'.after tokens := rfl

theorem after_append (o : Outlook) (tokens rest : List Token) :
    o.after (tokens ++ rest) = (o.after tokens).bind fun o' => o'.after rest :=
  List.foldlM_append

end Outlook

open Outlook

/-- A pass over a formula finds an operand due and leaves an operator due, with the same parentheses
open. -/
theorem Derives.after_eq {k : Category} {ts : List Token} {f : Formula} (h : Derives k ts f)
    (d : Nat) : after ⟨.operand, d⟩ ts = some ⟨.operator, d⟩ := by
  induction h using Derives.by_level generalizing d with
  | letter c => rfl
  | parens ts f _ ih => simp only [after_cons, after_append, next, Option.bind_some, ih]; rfl
  | negation ts f _ ih => exact ih d
  | loosen k ts f _ _ ih => exact ih d
  | chain k c ts us f g _ _ _ _ ihf ihg =>
    simp only [after_append, ihf, Option.bind_some, after_cons, next, ihg]
  | conditional ts us f g _ _ ihf ihg =>
    simp only [after_append, ihf, Option.bind_some, after_cons, next, ihg]

namespace Outlook

/-- A pass over the tokens ends well. -/
def EndsWell (o : Outlook) (tokens : List Token) : Prop :=
  o.after tokens = some ⟨.operator, 0⟩

variable {d : Nat} {tokens : List Token}

/-- Where an operator is due and none follows, a parenthesis is closed or the tokens end. -/
theorem EndsWell.no_operator (h : EndsWell ⟨.operator, d⟩ tokens)
    (hstop : ∀ c us, tokens ≠ .binary c :: us) :
    (tokens = [] ∧ d = 0) ∨
      ∃ e rest, tokens = .rparen :: rest ∧ d = e + 1 ∧ EndsWell ⟨.operator, e⟩ rest := by
  cases tokens with
  | nil =>
    obtain rfl : d = 0 := by simpa [EndsWell, after] using h
    exact .inl ⟨rfl, rfl⟩
  | cons t rest =>
    cases t with
    | binary c => exact absurd rfl (hstop c rest)
    | rparen =>
      cases d with
      | zero => cases h
      | succ e => exact .inr ⟨e, rest, rfl, rfl, h⟩
    | letter a => cases h
    | not => cases h
    | lparen => cases h

/-- The tokens begin with a formula, after which a pass goes on to end well; the formula takes in
all connectives that follow. -/
def Begins (d : Nat) (tokens : List Token) : Prop :=
  ∃ us rest f, tokens = us ++ rest ∧ Derives .iff us f ∧ EndsWell ⟨.operator, d⟩ rest ∧
    ∀ c vs, rest ≠ .binary c :: vs

/-- Where an operand is due, a pass that ends well goes over an operand. What stands in parentheses
is shorter, so that it is known to begin with a formula. -/
theorem EndsWell.exists_operand {n : Nat}
    (ih : ∀ us : List Token, us.length < n → ∀ e, EndsWell ⟨.operand, e⟩ us → Begins e us)
    (hlen : tokens.length ≤ n) (h : EndsWell ⟨.operand, d⟩ tokens) :
    ∃ us rest f, tokens = us ++ rest ∧ Derives .not us f ∧ EndsWell ⟨.operator, d⟩ rest := by
  induction tokens with
  | nil => cases h
  | cons t ts iht =>
    rw [List.length_cons] at hlen
    cases t with
    | letter a => exact ⟨[.letter a], ts, .letter a, rfl, .atom (.letter a), h⟩
    | not =>
      obtain ⟨us, rest, f, rfl, hder, hrest⟩ := iht (by omega) h
      exact ⟨.not :: us, rest, .not f, rfl, .negation hder, hrest⟩
    | lparen =>
      obtain ⟨us, rest, f, rfl, hder, hrest, hstop⟩ := ih ts (by omega) (d + 1) h
      obtain ⟨-, hd⟩ | ⟨e, rest', rfl, hd, hrest'⟩ := hrest.no_operator hstop
      · omega
      · obtain rfl : d = e := by omega
        exact ⟨.lparen :: (us ++ [.rparen]), rest', f, by simp, .atom (.parens hder), hrest'⟩
    | rparen => cases h
    | binary c => cases h

/-- Operands with connectives between them are a formula, however these bind. -/
theorem EndsWell.begins (n : Nat) : ∀ tokens : List Token, tokens.length < n → ∀ d,
    EndsWell ⟨.operand, d⟩ tokens → Begins d tokens := by
  induction n with
  | zero => intro tokens hlen; omega
  | succ n ih =>
    intro tokens hlen d h
    obtain ⟨us, rest, f, rfl, hder, hrest⟩ := h.exists_operand ih (by omega)
    have hformula : Derives .iff us f := hder.mono (by decide)
    by_cases hoperator : ∃ c vs, rest = .binary c :: vs
    · obtain ⟨c, vs, rfl⟩ := hoperator
      simp only [List.length_append, List.length_cons] at hlen
      obtain ⟨ws, rest', g, rfl, hder', hrest', hstop⟩ := ih vs (by omega) d hrest
      obtain ⟨f', hjoined⟩ := hder'.exists_joined hformula c
      exact ⟨us ++ .binary c :: ws, rest', f', by simp, hjoined, hrest', hstop⟩
    · exact ⟨us, rest, f, rfl, hformula, hrest, fun c vs hvs => hoperator ⟨c, vs, hvs⟩⟩

end Outlook

/-- Tokens are read as a formula exactly if a single pass accepts them that knows nothing of how
tightly connectives bind. -/
theorem Formula.ofTokens_succeeds_iff_pass_accepts (tokens : List Token) :
    (∃ f, Formula.ofTokens tokens = .ok f) ↔ Outlook.accepts tokens = true := by
  simp only [Formula.ofTokens_eq_ok, Outlook.accepts, decide_eq_true_eq]
  constructor
  · rintro ⟨f, hder⟩
    exact hder.after_eq 0
  · intro h
    obtain ⟨us, rest, f, rfl, hder, hrest, hstop⟩ :=
      EndsWell.begins (tokens.length + 1) tokens (Nat.lt_succ_self _) 0 h
    obtain ⟨rfl, -⟩ | ⟨e, -, -, hd, -⟩ := hrest.no_operator hstop
    · exact ⟨f, by rwa [List.append_nil]⟩
    · cases hd

end Sentential
