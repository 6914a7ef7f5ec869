import Mathlib
import Sentential.Proofs.Verdicts

/-! What the limit of a search limits. It is looked at between rounds only: a search makes at most
as many rounds as the limit says, begins none once the steps it has added come up to the limit, and
goes beyond it by what its last round adds. On the other side, a search of two or more steps never
gives up before the limit, because the conjunction of a longest step with another one has a text
that no step has. -/

namespace Sentential

namespace Proof

section

variable {round : Proof → Walk}

/-- The proof after a number of rounds of a kind. -/
def afterRounds (round : Proof → Walk) (p : Proof) (n : Nat) : Proof :=
  (fun q => (round q).proof)^[n] p

theorem afterRounds_succ (p : Proof) (n : Nat) :
    afterRounds round p (n + 1) = (round (afterRounds round p n)).proof :=
  Function.iterate_succ_apply' ..

theorem afterRounds_round (p : Proof) (n : Nat) :
    afterRounds round (round p).proof n = afterRounds round p (n + 1) :=
  (Function.iterate_succ_apply ..).symm

theorem length_afterRounds_succ (hcounts : ∀ p, (round p).Counts p) (p : Proof) (n : Nat) :
    (afterRounds round p (n + 1)).steps.length =
      (afterRounds round p n).steps.length + (round (afterRounds round p n)).added := by
  rw [afterRounds_succ]
  exact hcounts _

/-- The rounds that are made under a limit: each begins with an incomplete proof and with fewer
steps added than the limit says, and each but the last adds a step. -/
structure Course (round : Proof → Walk) (limit : Int) (p : Proof) (n : Nat) : Prop where
  begins : ∀ m < n, (afterRounds round p m).isComplete = false ∧
    ((afterRounds round p m).steps.length : Int) < p.steps.length + limit
  grows : ∀ m, m + 1 < n → 0 < (round (afterRounds round p m)).added

/-- A number of rounds has used up the limit, or the last of them has added nothing. -/
def Spent (round : Proof → Walk) (limit : Int) (p : Proof) (n : Nat) : Prop :=
  p.steps.length + limit ≤ (afterRounds round p n).steps.length ∨
    ∃ m, m + 1 = n ∧ (round (afterRounds round p m)).added = 0

theorem Course.none (limit : Int) (p : Proof) : Course round limit p 0 :=
  ⟨fun _ hm => by omega, fun _ hm => by omega⟩

theorem Course.one {limit : Int} {p : Proof} (hlimit : 0 < limit) (hopen : p.isComplete = false) :
    Course round limit p 1 := by
  refine ⟨fun m hm => ?_, fun m hm => by omega⟩
  obtain rfl : m = 0 := by omega
  refine ⟨hopen, ?_⟩
  show (p.steps.length : Int) < _
  omega

theorem Course.next {limit : Int} {p : Proof} {n : Nat} (hcounts : (round p).Counts p)
    (hopen : p.isComplete = false) (hadded : 0 < (round p).added) (hlimit : 0 < limit)
    (h : Course round (limit - (round p).added) (round p).proof n) :
    Course round limit p (n + 1) := by
  rw [Walk.Counts] at hcounts
  refine ⟨fun m hm => ?_, fun m hm => ?_⟩
  · cases m with
    | zero =>
      refine ⟨hopen, ?_⟩
      show (p.steps.length : Int) < _
      omega
    | succ m =>
      obtain ⟨hincomplete, hbelow⟩ := h.begins m (by omega)
      rw [afterRounds_round] at hincomplete hbelow
      exact ⟨hincomplete, by omega⟩
  · cases m with
    | zero => exact hadded
    | succ m =>
      have hgrows := h.grows m (by omega)
      rwa [afterRounds_round] at hgrows

theorem Spent.next {limit : Int} {p : Proof} {n : Nat} (hcounts : (round p).Counts p)
    (h : Spent round (limit - (round p).added) (round p).proof n) :
    Spent round limit p (n + 1) := by
  rw [Walk.Counts] at hcounts
  rcases h with hfull | ⟨m, rfl, hnothing⟩
  · rw [afterRounds_round] at hfull
    exact .inl (by omega)
  · rw [afterRounds_round] at hnothing
    exact .inr ⟨m + 1, rfl, hnothing⟩

/-- A course has no more rounds than the limit says, since the steps grow with the rounds. -/
theorem Course.length_le (hcounts : ∀ p, (round p).Counts p) {limit : Int} {p : Proof} {n : Nat}
    (h : Course round limit p n) : n ≤ limit.toNat := by
  have hgrown : ∀ m < n, p.steps.length + m ≤ (afterRounds round p m).steps.length := by
    intro m
    induction m with
    | zero => exact fun _ => Nat.le_refl _
    | succ m ih =>
      intro hm
      have hbefore := ih (by omega)
      have hgrows := h.grows m hm
      rw [length_afterRounds_succ hcounts]
      omega
  cases n with
  | zero => exact Nat.zero_le _
  | succ n =>
    have hlast := hgrown n (by omega)
    have hbelow := (h.begins n (by omega)).2
    omega

/-- Repeated rounds end where a course of rounds ends, and do not give up before it is spent. -/
theorem exists_course (hcounts : ∀ p, (round p).Counts p) (limit : Int) (added : Nat)
    (p : Proof) :
    ∃ n, (repeatRounds round limit added p).1 = afterRounds round p n ∧
      Course round (limit - added) p n ∧
      ((repeatRounds round limit added p).2 = .ok .exhausted →
        Spent round (limit - added) p n) := by
  fun_induction repeatRounds round limit added p with
  | case1 added p hgo proof more rule hw =>
    exact ⟨1, (congrArg Walk.proof hw).symm, .one (by omega) hgo.2, fun h => by cases h⟩
  | case2 added p hgo proof more cause hw =>
    exact ⟨1, (congrArg Walk.proof hw).symm, .one (by omega) hgo.2, fun h => by cases h⟩
  | case3 added p hgo proof hw =>
    exact ⟨1, (congrArg Walk.proof hw).symm, .one (by omega) hgo.2, fun _ =>
      .inr ⟨0, rfl, congrArg Walk.added hw⟩⟩
  | case4 added p hgo proof more hw ih =>
    obtain ⟨n, hend, hcourse, hspent⟩ := ih
    obtain rfl : (round p).proof = proof := congrArg Walk.proof hw
    have hmore : (round p).added = more + 1 := congrArg Walk.added hw
    have hleft : limit - added - (round p).added = limit - (added + (more + 1) : Nat) := by omega
    rw [← hleft] at hcourse hspent
    refine ⟨n + 1, by rw [hend, afterRounds_round], ?_, fun h => ?_⟩
    · exact hcourse.next (hcounts p) hgo.2 (by omega) (by omega)
    · exact Spent.next (hcounts p) (hspent h)
  | case5 added p hstop =>
    refine ⟨0, rfl, .none _ _, fun h => .inl ?_⟩
    have hopen := (settled_eq_exhausted_iff p).mp (Except.ok.inj h)
    have hlimit : ¬(added : Int) < limit := fun hlt => hstop ⟨hlt, hopen⟩
    show (p.steps.length : Int) + _ ≤ p.steps.length
    omega

end

theorem counts_round (p : Proof) : p.round.Counts p :=
  (Walk.stable_counts p).round rfl

theorem search_exists_course (p : Proof) (limit : Int) :
    ∃ n, (p.search limit).1 = afterRounds round p n ∧ Course round limit p n ∧
      ((p.search limit).2 = .ok .exhausted → Spent round limit p n) := by
  unfold search
  split
  · exact ⟨0, rfl, .none limit p, fun h => by cases h⟩
  · split
    · exact ⟨0, rfl, .none limit p, fun h => by cases h⟩
    · split
      · exact ⟨0, rfl, .none limit p, fun h => by cases h⟩
      · simpa using exists_course counts_round limit 0 p

/-- A search makes at most as many rounds as the limit says. It begins each of them with fewer steps
added than the limit says, each but the last adds a step, and it does not give up before it has used
up the limit or made a round that adds nothing. So it keeps to the limit exactly if its last round
does. -/
theorem search_overruns_in_last_round (p : Proof) (limit : Int) :
    ∃ n ≤ limit.toNat, (p.search limit).1 = afterRounds round p n ∧
      (∀ m < n, (afterRounds round p m).isComplete = false ∧
        ((afterRounds round p m).steps.length : Int) < p.steps.length + limit) ∧
      (∀ m, m + 1 < n → 0 < (afterRounds round p m).round.added) ∧
      ((p.search limit).2 = .ok .exhausted →
        p.steps.length + limit ≤ (p.search limit).1.steps.length ∨
          ∃ m, m + 1 = n ∧ (afterRounds round p m).round.added = 0) ∧
      ((p.search limit).1.steps.length ≤ p.steps.length + limit.toNat ↔
        ∀ m, m + 1 = n → (afterRounds round p m).steps.length +
          (afterRounds round p m).round.added ≤ p.steps.length + limit.toNat) := by
  obtain ⟨n, hend, hcourse, hspent⟩ := search_exists_course p limit
  refine ⟨n, hcourse.length_le counts_round, hend, hcourse.begins, hcourse.grows, ?_, ?_⟩
  · rw [hend]
    exact hspent
  · rw [hend]
    cases n with
    | zero =>
      refine ⟨fun _ m hm => by omega, fun _ => ?_⟩
      exact Nat.le_add_right ..
    | succ n =>
      rw [length_afterRounds_succ counts_round]
      refine ⟨fun h m hm => ?_, fun h => h n rfl⟩
      obtain rfl : m = n := by omega
      exact h

/-- From "A ∧ B" a search for "D" that is limited to one step adds two. -/
theorem search_overruns_one_step :
    let p := run [.premise "A ∧ B".toList, .conclusion "D".toList]
    (p.search 1).1.steps.length = p.steps.length + 2 := by
  intro p
  unfold p
  cbv

end Proof

namespace Rule

theorem neat_conjoined {q : Quote} (h : Text.Neat q.text) : Text.Neat (conjoined q).text := by
  rw [conjoined, Draft.text_wrapped]
  exact h.wrap _

theorem length_le_conjoined (q : Quote) : q.text.length ≤ (conjoined q).text.length := by
  rw [conjoined, Draft.text_wrapped, Draft.text, Formula.wrap]
  split
  · rw [Formula.inParens, List.length_cons, List.length_append]
    omega
  · exact Nat.le_refl _

/-- Any two sentences can be conjoined. The conjunction is shown as it was put together, so it is
longer than either. -/
theorem exists_conjunction {s t : Sentence} (hs : s.IsRead) (ht : t.IsRead) (choices : Choices) :
    ∃ u, conjunctionIntroduction.apply choices [.sentence s, .sentence t] = .ok (some u) ∧
      s.text.length < u.text.length ∧ t.text.length < u.text.length := by
  have hneat := hs.neat_text
  have hneat' := ht.neat_text
  obtain ⟨_, hread⟩ := hs
  obtain ⟨_, hread'⟩ := ht
  obtain ⟨a, hquote, ha⟩ := Sentence.quote_of_read hread
  obtain ⟨b, hquote', hb⟩ := Sentence.quote_of_read hread'
  obtain hs : s.text = a.text := (Content.of_quote? hquote).2.2
  obtain ht : t.text = b.text := (Content.of_quote? hquote').2.2
  rw [hs] at hneat ⊢
  rw [ht] at hneat' ⊢
  have hconclusion : conjunctionIntroduction.conclusion choices [.sentence s, .sentence t] =
      .ok (some (Draft.join .and (conjoined a) (conjoined b)).text) :=
    conclusion_eq_fromTwo hquote hquote'
  have hlegible : (Draft.join .and (conjoined a) (conjoined b)).Legible := by
    simp [conjoined, ha, hb]
  obtain ⟨u, hu⟩ := Draft.exists_read hlegible
  refine ⟨_, apply_of_read rfl hconclusion hu, ?_⟩
  rw [Sentence.text_of_neat ((neat_conjoined hneat).joined (neat_conjoined hneat') .and) hu]
  have hleft := length_le_conjoined a
  have hright := length_le_conjoined b
  simp only [Formula.joined, List.length_append, List.length_cons]
  omega

end Rule

namespace Proof

theorem Reachable.sentence_of_mem {p : Proof} (h : Reachable p) {s : Step} (hs : s ∈ p.steps) :
    ∃ t, s.content = .sentence t ∧ t.IsRead :=
  h.wellBuilt.built.isRead.2 s hs

/-- No step has a longer text. -/
def IsLongest (p : Proof) (s : Step) : Prop :=
  s ∈ p.steps ∧ ∀ t ∈ p.steps, t.content.text.length ≤ s.content.text.length

/-- In whichever order a longest step and another one are conjoined, no step has the text of their
conjunction. -/
theorem IsLongest.conjunction_is_new {p : Proof} (hp : Reachable p) {first second s : Step}
    (hfirst : first ∈ p.steps) (hsecond : second ∈ p.steps) (hs : p.IsLongest s)
    (hmem : s ∈ [first, second]) :
    ∃ u, Rule.conjunctionIntroduction.apply {} [first.content, second.content] = .ok (some u) ∧
      p.hasText u.text = false := by
  obtain ⟨f, hf, hread⟩ := hp.sentence_of_mem hfirst
  obtain ⟨g, hg, hread'⟩ := hp.sentence_of_mem hsecond
  obtain ⟨u, happly, hleft, hright⟩ := Rule.exists_conjunction hread hread' {}
  rw [hf, hg]
  refine ⟨u, happly, ?_⟩
  have hlonger : s.content.text.length < u.text.length := by
    rcases List.mem_pair.mp hmem with rfl | rfl
    · rwa [hf]
    · rwa [hg]
  rw [← Bool.not_eq_true, hasText_iff]
  rintro ⟨t, ht, htext⟩
  have hle := hs.2 t ht
  rw [htext] at hle
  omega

theorem exists_isLongest {p : Proof} (h : p.steps ≠ []) : ∃ s, p.IsLongest s := by
  have hnonempty : {s | s ∈ p.steps}.Nonempty := List.exists_mem_of_ne_nil _ h
  obtain ⟨s, hs, hmax⟩ := Set.exists_max_image {s | s ∈ p.steps} (fun s => s.content.text.length)
    (List.finite_toSet p.steps) hnonempty
  exact ⟨s, hs, hmax⟩

theorem exists_pair {α : Type} {l : List α} (h : 2 ≤ l.length) {a : α} (ha : a ∈ l) :
    ∃ first second, [first, second].Sublist l ∧ a ∈ [first, second] := by
  obtain ⟨before, after, rfl⟩ := List.append_of_mem ha
  cases after with
  | cons b after =>
    refine ⟨a, b, List.Sublist.trans ?_ (List.sublist_append_right before _), by simp⟩
    simp
  | nil =>
    obtain ⟨b, hb⟩ := List.exists_mem_of_length_pos (show 1 ≤ before.length by simpa using h)
    exact ⟨b, a, (List.singleton_sublist.mpr hb).append (.refl [a]), by simp⟩

/-- From two or more steps there is always something new to derive. -/
theorem exists_yields_new {p : Proof} (hp : Reachable p) (htwo : 2 ≤ p.steps.length) :
    ∃ text, p.Yields text ∧ p.hasText text = false := by
  obtain ⟨s, hs⟩ := exists_isLongest (p := p) (by rintro hnil; simp [hnil] at htwo)
  obtain ⟨first, second, hfound, hmem⟩ := exists_pair htwo hs.1
  obtain ⟨u, happly, hnew⟩ := hs.conjunction_is_new hp (hfound.subset (by simp))
    (hfound.subset (by simp)) hmem
  exact ⟨u.text, ⟨.conjunctionIntroduction, {}, [first, second], u, ⟨by decide, by simp⟩, hfound,
    happly, rfl⟩, hnew⟩

/-- The walk has left the proof alone unless it has added a step. -/
def Walk.Still (base : Proof) (w : Walk) : Prop :=
  w.added = 0 → w.proof = base

theorem Walk.stable_still (base : Proof) : Walk.Stable (Walk.Still base) := by
  intro w h choices rule indices
  unfold attempt
  split
  · exact h
  · split
    · exact fun hzero => absurd hzero (Nat.succ_ne_zero _)
    · exact h
    · exact h

/-- A round over two or more steps adds a step. -/
theorem round_adds {p : Proof} (hp : Reachable p) (hopen : p.isComplete = false)
    (htwo : 2 ≤ p.steps.length) : 0 < p.round.added := by
  rw [Nat.pos_iff_ne_zero]
  intro hzero
  have hstill : p.round.proof = p := (Walk.stable_still p).round (fun _ => rfl) hzero
  obtain ⟨text, hyields, hnew⟩ := exists_yields_new hp htwo
  have hfound := (explored_round hp).found
  rw [hstill] at hfound
  rw [hfound hopen text hyields] at hnew
  cases hnew

theorem onward_afterRounds {p : Proof} (hp : Reachable p) (n : Nat) :
    Onward p (afterRounds round p n) := by
  induction n with
  | zero => exact ⟨hp, .refl p⟩
  | succ n ih =>
    have hnext := (explored_round ih.reachable).onward
    rw [afterRounds_succ]
    exact ⟨hnext.reachable, ih.extended.trans hnext.extended⟩

/-- From a proof with a conclusion, two or more steps and no success so far, a search that fails has
added as many steps as its limit says. No round leaves such a proof as it is: conjunction
introduction derives a new text from a longest step and any other. -/
theorem search_fails_only_at_limit {p : Proof} (hp : Reachable p) (hgoal : p.conclusion ≠ none)
    (hopen : p.isComplete = false) (htwo : 2 ≤ p.steps.length) (limit : Int) :
    (∃ result, (p.search limit).2 = .ok result ∧ (result.success = false →
      (p.steps.length : Int) + limit ≤ (p.search limit).1.steps.length)) ∧
    0 < p.round.added ∧
    ∀ s, p.IsLongest s → ∀ t ∈ p.steps,
      ∃ u, Rule.conjunctionIntroduction.apply {} [s.content, t.content] = .ok (some u) ∧
        p.hasText u.text = false := by
  obtain ⟨result, hresult, -⟩ := answers_search hp.wellBuilt limit
  refine ⟨⟨result, hresult, fun hfails => ?_⟩, round_adds hp hopen htwo, fun s hs t ht =>
    hs.conjunction_is_new hp hs.1 ht (by simp)⟩
  have hpremises : p.premises ≠ [] := by
    intro hnil
    rw [hp.wellBuilt.built.steps_eq_nil hnil] at htwo
    exact absurd htwo (by decide)
  obtain rfl := eq_exhausted_of_search hpremises hgoal hresult hfails
  obtain ⟨n, hend, hcourse, hspent⟩ := search_exists_course p limit
  rcases hspent hresult with hfull | ⟨m, rfl, hnothing⟩
  · rwa [hend]
  · -- the last round would have added nothing to two or more steps
    have hlast := onward_afterRounds hp m
    have hkept := hlast.extended.sublist.length_le
    have hadds := round_adds hlast.reachable (hcourse.begins m (by omega)).1 (htwo.trans hkept)
    omega

theorem search_of_two_letters_fails_only_at_limit :
    let p := run [.premise "A".toList, .premise "B".toList, .conclusion "D".toList]
    p.conclusion ≠ none ∧ p.isComplete = false ∧ p.steps.length = 2 ∧
      (p.search 1).2 = .ok .exhausted ∧ 3 ≤ (p.search 1).1.steps.length := by
  intro p
  obtain ⟨hgoal, hopen, htwo, hresult⟩ : p.conclusion.isSome = true ∧ p.isComplete = false ∧
      p.steps.length = 2 ∧ (p.search 1).2 = .ok .exhausted := by
    unfold p
    cbv
  have hgoal : p.conclusion ≠ none := Option.isSome_iff_ne_none.mp hgoal
  obtain ⟨⟨result, hsame, hlimit⟩, -⟩ :=
    search_fails_only_at_limit (reachable_run _) hgoal hopen htwo.ge 1
  obtain rfl : SearchResult.exhausted = result := Except.ok.inj (hresult.symm.trans hsame)
  have hlength : (p.steps.length : Int) + 1 ≤ (p.search 1).1.steps.length := hlimit rfl
  exact ⟨hgoal, hopen, htwo, hresult, by omega⟩

end Proof

end Sentential
