import Sentential.Proofs.Scanning

/-! What the written form of a formula is read as. The written form can be read at the level of the
formula's connective, and gives the formula with every chain of conjunctions, of exclusive and of
inclusive disjunctions grouped to the left; `regroup` is that formula. It has the same written form,
and is the formula itself exactly if no chain was grouped otherwise. -/

namespace Sentential

namespace Connective

/-- A part joined by `d` on the right of `c` is written bare, and is read as going on from `c`. -/
def chains : Connective → Connective → Bool
  | and, and | and, nand | nand, and | nand, nand => true
  | or, or | or, nor | nor, or | nor, nor => true
  | xor, xor => true
  | _, _ => false

/-- The category that the connective's formulas belong to. -/
def category : Connective → Category
  | and | nand => .and
  | xor => .xor
  | or | nor => .or
  | implies => .implies
  | iff => .iff

theorem level_category (c : Connective) : c.category.level = c.level := by
  cases c <;> rfl

theorem chains_iff {c d : Connective} : c.chains d = true ↔ d.level = c.level ∧ c.level ≤ 4 := by
  cases c <;> cases d <;> decide

theorem chains_congr {c d e : Connective} (h : d.level = e.level) : c.chains d = c.chains e := by
  rw [Bool.eq_iff_iff, chains_iff, chains_iff, h]

end Connective

namespace Formula

attribute [local grind =] head print

/-- Whether a formula on the right of `c` goes on the chain of `c`. -/
def continues (c : Connective) : Formula → Bool
  | binary d _ _ => c.chains d
  | _ => false

@[simp] theorem continues_binary (c d : Connective) (f g : Formula) :
    (binary d f g).continues c = c.chains d := rfl

/-- No conjunction has a conjunction on its right, no disjunction a disjunction and no exclusive
disjunction an exclusive one, where the denials count with what they deny. -/
@[grind =] def isLeftGrouped : Formula → Bool
  | letter _ => true
  | not f => f.isLeftGrouped
  | binary c f g => f.isLeftGrouped && g.isLeftGrouped && !g.continues c

/-- The formula `left` joined by `c` to the first member of a chain. -/
@[grind =] def graft (c : Connective) (left : Formula) : Formula → Formula
  | binary d f g => if c.chains d then binary d (graft c left f) g else binary c left (binary d f g)
  | f => binary c left f

/-- The formula with its chains grouped to the left. -/
@[grind =] def regroup : Formula → Formula
  | letter c => letter c
  | not f => not f.regroup
  | binary c f g => graft c f.regroup g.regroup

/-- The category that the written form belongs to. -/
@[grind =] def category : Formula → Category
  | letter _ => .atom
  | not _ => .not
  | binary c _ _ => c.category

theorem graft_of_not_continues {c : Connective} {left f : Formula} (h : f.continues c = false) :
    graft c left f = binary c left f := by
  cases f with
  | letter a => rfl
  | not f => rfl
  | binary d f g => rw [graft, if_neg (by simpa using h)]

/-- A chain keeps its level when something is grafted on it. -/
theorem exists_graft (c : Connective) (left f : Formula) :
    ∃ d a b, graft c left f = binary d a b ∧ d.level = c.level := by
  cases f with
  | letter a => exact ⟨_, _, _, rfl, rfl⟩
  | not f => exact ⟨_, _, _, rfl, rfl⟩
  | binary d f g =>
    rw [graft]
    split
    · next h => exact ⟨_, _, _, rfl, (Connective.chains_iff.mp h).1⟩
    · exact ⟨_, _, _, rfl, rfl⟩

theorem continues_graft (c d : Connective) (left f : Formula) :
    (graft c left f).continues d = d.chains c := by
  obtain ⟨e, a, b, heq, he⟩ := exists_graft c left f
  rw [heq]
  exact Connective.chains_congr he

/-- It does not matter in which order two links of a chain are grafted. -/
theorem graft_graft {c d : Connective} (h : c.chains d = true) (left f g : Formula) :
    graft c left (graft d f g) = graft d (graft c left f) g := by
  obtain ⟨hlevel, hle⟩ := Connective.chains_iff.mp h
  induction g with
  | letter a => simp [graft, h]
  | not g => simp [graft, h]
  | binary e a b iha _ =>
    by_cases he : d.chains e = true
    · have hce : c.chains e = true := by
        rw [Connective.chains_iff] at he ⊢
        omega
      simp only [graft, he, hce, if_true, iha]
    · simp [graft, he, h]

theorem isLeftGrouped_graft {c : Connective} {left f : Formula} (hleft : left.isLeftGrouped = true)
    (hf : f.isLeftGrouped = true) : (graft c left f).isLeftGrouped = true := by
  induction f with
  | letter a => simp [graft, isLeftGrouped, hleft, continues]
  | not f => simpa [graft, isLeftGrouped, hleft, continues] using hf
  | binary d f g ihf _ =>
    rw [graft]
    simp only [isLeftGrouped, Bool.and_eq_true, Bool.not_eq_true'] at hf
    split
    · simp [isLeftGrouped, ihf hf.1.1, hf.1.2, hf.2]
    · next h => simp [isLeftGrouped, hleft, hf, h]

theorem isLeftGrouped_regroup (f : Formula) : f.regroup.isLeftGrouped = true := by
  induction f with
  | letter a => rfl
  | not f ih => exact ih
  | binary c f g ihf ihg => exact isLeftGrouped_graft ihf ihg

theorem regroup_eq_self {f : Formula} (h : f.isLeftGrouped = true) : f.regroup = f := by
  induction f with
  | letter a => rfl
  | not f ih => rw [regroup, ih h]
  | binary c f g ihf ihg =>
    simp only [isLeftGrouped, Bool.and_eq_true, Bool.not_eq_true'] at h
    rw [regroup, ihf h.1.1, ihg h.1.2, graft_of_not_continues h.2]

theorem regroup_eq_self_iff {f : Formula} : f.regroup = f ↔ f.isLeftGrouped = true :=
  ⟨fun h => h ▸ isLeftGrouped_regroup f, regroup_eq_self⟩

/-- The tokens, in parentheses if asked for. -/
def wrapTokens (parens : Bool) (tokens : List Token) : List Token :=
  if parens then .lparen :: (tokens ++ [.rparen]) else tokens

/-- The tokens of the written form. -/
@[grind =] def tokens : Formula → List Token
  | letter c => [.letter c]
  | not f => .not :: wrapTokens (f.head != .letter && f.head != .not) f.tokens
  | binary c f g =>
    wrapTokens (f.head.parenthesized (.binary c)) f.tokens ++
      .binary c :: wrapTokens (g.head.parenthesized (.binary c)) g.tokens

end Formula

theorem Derives.mono {k k' : Category} {ts : List Token} {f : Formula} (h : Derives k ts f)
    (hle : k.level ≤ k'.level) : Derives k' ts f := by
  obtain ⟨n, hn⟩ : ∃ n, k'.level = k.level + n := ⟨_, (Nat.add_sub_of_le hle).symm⟩
  induction n generalizing k' with
  | zero =>
    obtain rfl : k' = k := by revert hn; cases k <;> cases k' <;> decide
    exact h
  | succ n ih =>
    have htighter : k'.tighter.level = k.level + n := by
      rw [k'.level_tighter]
      omega
    exact (ih (by omega) htighter).loosen

namespace Formula

theorem derives_wrap {k k' : Category} {ts : List Token} {f : Formula} {parens : Bool}
    (h : Derives k ts f) (hle : parens = false → k.level ≤ k'.level) :
    Derives k' (wrapTokens parens ts) f := by
  cases parens with
  | false => exact h.mono (hle rfl)
  | true =>
    have hiff : Derives .iff ts f := h.mono (by cases k <;> decide)
    exact (Derives.parens hiff).mono (Nat.zero_le _)

theorem parenthesized_binary (c d : Connective) :
    (Head.binary d).parenthesized (.binary c) = decide (c.level < d.level ∨ 5 ≤ c.level) := by
  cases c <;> cases d <;> rfl

/-- Whether a part is put in parentheses depends only on the level of the connective above it. -/
theorem parenthesized_congr {c d : Connective} (h : c.level = d.level) (f : Formula) :
    f.head.parenthesized (.binary c) = f.head.parenthesized (.binary d) := by
  cases f with
  | letter a => rfl
  | not f => rfl
  | binary e f g => rw [head, parenthesized_binary, parenthesized_binary, h]

theorem parenthesized_of_chains {c d : Connective} (h : c.chains d = true) :
    (Head.binary d).parenthesized (.binary c) = false := by
  obtain ⟨hlevel, hle⟩ := Connective.chains_iff.mp h
  rw [parenthesized_binary, decide_eq_false_iff_not]
  omega

theorem level_le_of_bare {c : Connective} {f : Formula}
    (h : f.head.parenthesized (.binary c) = false) : f.category.level ≤ c.level := by
  have htwo : 2 ≤ c.level := by cases c <;> decide
  cases f with
  | letter a => exact Nat.zero_le _
  | not f => exact Nat.le_of_succ_le htwo
  | binary d f g =>
    rw [head, parenthesized_binary, decide_eq_false_iff_not] at h
    rw [category, d.level_category]
    omega

/-- A part that is written bare and does not go on the chain binds more tightly. -/
theorem level_lt_of_bare {c : Connective} {f : Formula} (h : f.continues c = false)
    (hbare : f.head.parenthesized (.binary c) = false) : f.category.level < c.level := by
  have htwo : 2 ≤ c.level := by cases c <;> decide
  cases f with
  | letter a => exact Nat.lt_of_lt_of_le Nat.zero_lt_two htwo
  | not f => exact htwo
  | binary d f g =>
    rw [head, parenthesized_binary, decide_eq_false_iff_not] at hbare
    rw [continues_binary, ← Bool.not_eq_true, Connective.chains_iff] at h
    rw [category, d.level_category]
    omega

theorem continues_regroup (c : Connective) (f : Formula) :
    f.regroup.continues c = f.continues c := by
  cases f with
  | letter a => rfl
  | not f => rfl
  | binary d f g => exact continues_graft d c f.regroup g.regroup

/-- What is written on the right of `c` can be read as going on from what was read before. -/
def ReadsOn (g : Formula) : Prop :=
  ∀ (c : Connective) (ts : List Token) (left : Formula), c ≠ .implies →
    Derives c.category ts left →
    Derives c.category (ts ++ .binary c :: wrapTokens (g.head.parenthesized (.binary c)) g.tokens)
      (graft c left g.regroup)

theorem readsOn_operand {c : Connective} {g left : Formula} {ts : List Token}
    (hg : Derives g.category g.tokens g.regroup) (hcont : g.continues c = false)
    (hne : c ≠ .implies) (hleft : Derives c.category ts left) :
    Derives c.category (ts ++ .binary c :: wrapTokens (g.head.parenthesized (.binary c)) g.tokens)
      (graft c left g.regroup) := by
  rw [graft_of_not_continues (by rw [continues_regroup, hcont])]
  refine hleft.chain c.level_category.symm hne (derives_wrap hg fun hbare => ?_)
  rw [c.category.level_tighter, c.level_category]
  exact Nat.le_sub_one_of_lt (level_lt_of_bare hcont hbare)

/-- A chain on the right of `c` is read member by member. -/
theorem readsOn_chain {c d : Connective} {f g left : Formula} {ts : List Token} (hf : f.ReadsOn)
    (hg : g.ReadsOn) (hchain : c.chains d = true) (hne : c ≠ .implies)
    (hleft : Derives c.category ts left) :
    Derives c.category
      (ts ++ .binary c :: wrapTokens ((binary d f g).head.parenthesized (.binary c))
        (binary d f g).tokens)
      (graft c left (binary d f g).regroup) := by
  have hlevel := (Connective.chains_iff.mp hchain).1
  have hcat : c.category = d.category := by revert hchain; cases c <;> cases d <;> decide
  have hned : d ≠ .implies := by
    rintro rfl
    revert hchain
    cases c <;> decide
  have hfirst := hf c ts left hne hleft
  rw [hcat] at hfirst
  have hsecond := hg d _ _ hned hfirst
  rw [parenthesized_congr hlevel.symm f] at hsecond
  rw [head, parenthesized_of_chains hchain, regroup, graft_graft hchain, hcat]
  simpa [wrapTokens, tokens] using hsecond

/-- The sides of a conditional are written as negations or atoms. -/
theorem derives_side {f : Formula} (hf : Derives f.category f.tokens f.regroup) :
    Derives .not (wrapTokens (f.head.parenthesized (.binary .implies)) f.tokens) f.regroup := by
  refine derives_wrap hf fun hbare => ?_
  cases f with
  | letter a => exact Nat.zero_le _
  | not f => exact Nat.le_refl _
  | binary d f g => simp [head, parenthesized_binary, Connective.level] at hbare

theorem not_continues {c : Connective} (h : 4 < c.level) (f : Formula) : f.continues c = false := by
  cases f with
  | letter a => rfl
  | not f => rfl
  | binary d f g =>
    rw [continues_binary, ← Bool.not_eq_true, Connective.chains_iff]
    omega

/-- The written form of a formula is read as the formula with its chains grouped to the left. -/
theorem derives_tokens (f : Formula) :
    Derives f.category f.tokens f.regroup ∧ f.ReadsOn := by
  induction f with
  | letter a =>
    have h : Derives .atom [.letter a] (.letter a) := .letter a
    exact ⟨h, fun c ts left hne hleft => readsOn_operand (g := letter a) h rfl hne hleft⟩
  | not f ih =>
    have h : Derives .not (not f).tokens (not f).regroup := by
      refine .negation (derives_wrap ih.1 fun hbare => ?_)
      cases f with
      | letter a => exact Nat.zero_le _
      | not f => exact Nat.le_refl _
      | binary c f g => simp [head] at hbare
    exact ⟨h, fun c ts left hne hleft => readsOn_operand (g := not f) h rfl hne hleft⟩
  | binary d f g ihf ihg =>
    have h : Derives (binary d f g).category (binary d f g).tokens (binary d f g).regroup := by
      have hleft : Derives d.category (wrapTokens (f.head.parenthesized (.binary d)) f.tokens)
          f.regroup := by
        refine derives_wrap ihf.1 fun hbare => ?_
        rw [d.level_category]
        exact level_le_of_bare hbare
      by_cases hd : d = .implies
      · subst hd
        rw [regroup, graft_of_not_continues (not_continues (by decide) _)]
        exact .conditional ((derives_side ihf.1).mono (by decide))
          ((derives_side ihg.1).mono (by decide))
      · exact ihg.2 d _ _ hd hleft
    refine ⟨h, fun c ts left hne hleft => ?_⟩
    by_cases hchain : c.chains d = true
    · exact readsOn_chain ihf.2 ihg.2 hchain hne hleft
    · exact readsOn_operand h (by simpa using hchain) hne hleft

/-- A formula and the formula with its chains grouped to the left have connectives of one level at
their top. -/
theorem head_regroup (f : Formula) :
    f.regroup.head = f.head ∨ ∃ c d, f.regroup.head = .binary c ∧ f.head = .binary d ∧
      c.level = d.level := by
  cases f with
  | letter a => exact .inl rfl
  | not f => exact .inl rfl
  | binary d f g =>
    obtain ⟨e, a, b, heq, he⟩ := exists_graft d f.regroup g.regroup
    exact .inr ⟨e, d, by rw [regroup, heq, head], rfl, he⟩

theorem parenthesized_regroup (f : Formula) (c : Connective) :
    f.regroup.head.parenthesized (.binary c) = f.head.parenthesized (.binary c) := by
  obtain h | ⟨d, e, hd, he, hlevel⟩ := f.head_regroup
  · rw [h]
  · rw [hd, he, parenthesized_binary, parenthesized_binary, hlevel]

theorem print_graft (c : Connective) (left f : Formula) :
    (graft c left f).print = (binary c left f).print := by
  induction f with
  | letter a => rfl
  | not f => rfl
  | binary d f g ihf _ =>
    rw [graft]
    split
    · next hchain =>
      have hlevel := (Connective.chains_iff.mp hchain).1
      obtain ⟨e, a, b, heq, he⟩ := exists_graft c left f
      have hde : d.chains e = true := by
        rw [Connective.chains_iff] at hchain ⊢
        omega
      have hbare : (graft c left f).head.parenthesized (.binary d) = false := by
        rw [heq]
        exact parenthesized_of_chains hde
      rw [print, hbare, ihf, print, print, head, parenthesized_of_chains hchain, print,
        parenthesized_congr hlevel f]
      simp [wrap, joined]
    · rfl

/-- Grouping the chains to the left does not change the written form. -/
theorem print_regroup (f : Formula) : f.regroup.print = f.print := by
  induction f with
  | letter a => rfl
  | not f ih =>
    have hhead : (f.regroup.head != .letter && f.regroup.head != .not) =
        (f.head != .letter && f.head != .not) := by
      obtain h | ⟨d, e, hd, he, -⟩ := f.head_regroup
      · rw [h]
      · rw [hd, he]
        rfl
    rw [regroup, print, print, ih, hhead]
  | binary c f g ihf ihg =>
    rw [regroup, print_graft, print, print, ihf, ihg, parenthesized_regroup, parenthesized_regroup]

theorem mem_insertLetter {c d : Char} {cs : List Char} :
    c ∈ insertLetter d cs ↔ c = d ∨ c ∈ cs := by
  induction cs with
  | nil => simp [insertLetter]
  | cons e cs ih =>
    rw [insertLetter]
    split
    · simp
    · split
      · next h => subst h; simp
      · simp [ih, or_left_comm]

theorem mem_mergeLetters {c : Char} {cs ds : List Char} :
    c ∈ mergeLetters cs ds ↔ c ∈ cs ∨ c ∈ ds := by
  induction cs with
  | nil => simp [mergeLetters]
  | cons d cs ih =>
    rw [mergeLetters, List.foldr_cons, mem_insertLetter, ← mergeLetters, ih]
    simp [or_assoc]

theorem scans_letter {c : Char} (h : Text.isCapital c = true) : Scans [c] [.letter c] := by
  have hdisjoint : ∀ n ∈ Text.blankCodes,
      (Text.capitalRuns.any fun run => run.contains n) = false := by
    decide
  have hblank : Text.isBlank c = false := by
    rw [← Bool.not_eq_true]
    intro hblank
    have hmem : c.toNat ∈ Text.blankCodes := by simpa [Text.isBlank] using hblank
    have := hdisjoint _ hmem
    rw [Text.isCapital, this] at h
    cases h
  exact .sign hblank (by unfold Token.ofChar?; exact if_pos h) .nil

theorem scans_wrap {text : List Char} {ts : List Token} (h : Scans text ts) (parens : Bool) :
    Scans (wrap parens text) (wrapTokens parens ts) := by
  cases parens with
  | false => exact h
  | true =>
    have hclose : Scans [')'] [.rparen] := .sign (by decide) (by decide) .nil
    exact .sign (by decide) (by decide) (h.append hclose)

theorem scans_joined {left right : List Char} {ts us : List Token} (c : Connective)
    (hleft : Scans left ts) (hright : Scans right us) :
    Scans (joined left c right) (ts ++ .binary c :: us) := by
  have hsymbol : Text.isBlank c.symbol = false ∧ Token.ofChar? c.symbol = some (.binary c) := by
    cases c <;> decide
  refine hleft.append ?_
  exact .blank (by decide) (.sign hsymbol.1 hsymbol.2 (.blank (by decide) hright))

theorem scans_print {f : Formula} (h : ∀ c ∈ f.letters, Text.isCapital c = true) :
    Scans f.print f.tokens := by
  induction f with
  | letter c => exact scans_letter (h c (by simp [letters]))
  | not f ih => exact .sign (by decide) (by decide) (scans_wrap (ih h) _)
  | binary c f g ihf ihg =>
    have hf := ihf fun a ha => h a (mem_mergeLetters.mpr (.inl ha))
    have hg := ihg fun a ha => h a (mem_mergeLetters.mpr (.inr ha))
    exact scans_joined c (scans_wrap hf _) (scans_wrap hg _)

theorem parse_print {f : Formula} (h : ∀ c ∈ f.letters, Text.isCapital c = true) :
    parse f.print = .ok f.regroup :=
  parse_eq_ok.mpr
    ⟨f.tokens, scans_print h, f.derives_tokens.1.mono (by cases f.category <;> decide)⟩

/-- The written form of a formula over capitals can be read; the formula read has the same written
form, and it is the formula itself exactly if no chain is grouped to the right. -/
theorem parse_print_round_trip (f : Formula) (h : ∀ c ∈ f.letters, Text.isCapital c = true) :
    ∃ g, parse f.print = .ok g ∧ g.print = f.print ∧ (g = f ↔ f.isLeftGrouped = true) :=
  ⟨f.regroup, parse_print h, f.print_regroup, regroup_eq_self_iff⟩

/-- The denials in "A ↑ (B ↑ C)" are written as a chain, which is read as another formula. -/
theorem parse_print_of_nested_denials :
    let f : Formula := .binary .nand (.letter 'A') (.binary .nand (.letter 'B') (.letter 'C'))
    f.isLeftGrouped = false ∧ (∀ c ∈ f.letters, Text.isCapital c = true) ∧
      ∃ g, parse f.print = .ok g ∧ g.print = f.print ∧ (g = f ↔ f.isLeftGrouped = true) := by
  intro f
  have hcapital : ∀ c ∈ f.letters, Text.isCapital c = true := List.all_eq_true.mp (by decide)
  exact ⟨rfl, hcapital, parse_print_round_trip f hcapital⟩

end Formula

end Sentential
