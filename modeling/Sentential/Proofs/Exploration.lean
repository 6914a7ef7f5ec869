import Mathlib
import Sentential.Proofs.Completion
import Sentential.Proofs.Numbering

/-! How far a search looks. A round meets all steps that it starts from, each pair and each triple of
them in their order, and what it derives is not taken away again. So unless it comes to the
conclusion, all that the rules it tries can derive from those steps in one go stands among the steps
at its end. A search that gives up has made such a round, or has made one that added nothing and left
no rule anything new to derive. -/

namespace Sentential

namespace Rule

/-- The search tries the rule with these choices: all rules but addition, and double negation only to
eliminate it. -/
def IsTried (rule : Rule) (choices : Choices) : Prop :=
  rule ≠ .addition ∧ (rule = .doubleNegation → choices.mode = .eliminate)

/-- The number of premises that the rule takes. -/
def arity : Rule → Nat
  | modusPonens | modusTollens | hypotheticalSyllogism | disjunctiveSyllogism
  | conjunctionIntroduction | biconditionalIntroduction | resolution => 2
  | constructiveDilemma => 3
  | conjunctionElimination | addition | simplification | biconditionalElimination | doubleNegation
  | deMorganConjunction | deMorganDisjunction | transposition | implication | exportation
  | absorption => 1

theorem length_of_accepts {rule : Rule} {contents : List Content}
    (h : rule.accepts contents = .ok true) : contents.length = rule.arity := by
  unfold accepts at h
  split at h
  -- in the last case the number of premises is not the rule's
  case h_20 => cases h
  all_goals rfl

end Rule

namespace Proof

/-- A rule that the search tries derives the text from steps of the proof, taken in their order. -/
def Yields (p : Proof) (text : List Char) : Prop :=
  ∃ (rule : Rule) (choices : Choices) (found : List Step) (s : Sentence),
    rule.IsTried choices ∧ found.Sublist p.steps ∧
      rule.apply choices (found.map Step.content) = .ok (some s) ∧ s.text = text

theorem Reachable.orderly {p : Proof} (h : Reachable p) : Orderly p := by
  induction h with
  | empty => exact orderly_empty
  | change _ hchange ih =>
    cases hchange with
    | premise _ hadd => exact ih.addPremise hadd
    | conclusion _ hset => exact ih.setConclusion hset
    | derived happly => exact ih.derived happly
    | clear => exact orderly_empty

theorem Orderly.step?_index {p : Proof} (h : Orderly p) {s : Step} (hs : s ∈ p.steps) :
    p.step? s.index = some s := by
  obtain ⟨k, hk⟩ := List.mem_iff_getElem?.mp hs
  obtain ⟨t, ht⟩ : ∃ t, p.step? s.index = some t := by
    rw [step?, ← Option.isSome_iff_exists, List.find?_isSome]
    exact ⟨s, hs, by simp⟩
  obtain ⟨j, hj⟩ := List.mem_iff_getElem?.mp (List.mem_of_find?_eq_some ht)
  have hsame : t.index = s.index := by simpa using List.find?_some ht
  have hplaces : j = k := by
    have hs' := h.numbers k s hk
    have ht' := h.numbers j t hj
    omega
  rw [ht, ← hj, ← hk, hplaces]

theorem Orderly.contents_found {p : Proof} (h : Orderly p) {found : List Step}
    (hfound : ∀ s ∈ found, s ∈ p.steps) :
    p.contents (found.map Step.index) = .ok (found.map Step.content) := by
  induction found with
  | nil => rfl
  | cons s rest ih =>
    rw [List.forall_mem_cons] at hfound
    rw [List.map_cons, contents, h.step?_index hfound.1, ih hfound.2]
    rfl

theorem Extends.sublist {p q : Proof} (h : p.Extends q) : p.steps.Sublist q.steps := by
  obtain ⟨added, hsteps, -⟩ := h.steps
  rw [hsteps]
  exact List.sublist_append_left _ _

theorem Extends.getElem? {p q : Proof} (h : p.Extends q) {i : Nat} {s : Step}
    (hs : p.steps[i]? = some s) : q.steps[i]? = some s := by
  obtain ⟨added, hsteps, -⟩ := h.steps
  rw [hsteps, List.getElem?_append_left (List.getElem?_eq_some_iff.mp hs).1, hs]

theorem Extends.contents {p q : Proof} (h : p.Extends q) {indices : List Int}
    {contents : List Content} (hcontents : p.contents indices = .ok contents) :
    q.contents indices = .ok contents := by
  obtain ⟨added, hsteps, -⟩ := h.steps
  rw [contents_steps] at hcontents ⊢
  rw [hsteps]
  exact contents_append hcontents added

theorem Extends.hasText {p q : Proof} (h : p.Extends q) {text : List Char}
    (htext : p.hasText text = true) : q.hasText text = true := by
  obtain ⟨added, hsteps, -⟩ := h.steps
  rw [Proof.hasText] at htext ⊢
  rw [hsteps, List.any_append, htext, Bool.true_or]

theorem Extends.yields {p q : Proof} (h : p.Extends q) {text : List Char}
    (hyields : p.Yields text) : q.Yields text := by
  obtain ⟨rule, choices, found, s, htried, hfound, happly, htext⟩ := hyields
  exact ⟨rule, choices, found, s, htried, hfound.trans h.sublist, happly, htext⟩

theorem exists_place {α : Type} {a : α} {l m : List α} (h : (a :: l).Sublist m) :
    ∃ i, m[i]? = some a ∧ l.Sublist (m.drop (i + 1)) := by
  induction m with
  | nil => cases h
  | cons b m ih =>
    cases h with
    | cons _ h =>
      obtain ⟨i, ha, hl⟩ := ih h
      exact ⟨i + 1, ha, hl⟩
    | cons_cons _ h => exact ⟨0, rfl, h⟩

/-- The proof was reached from the base by derived steps. -/
structure Onward (base q : Proof) : Prop where
  reachable : Reachable q
  extended : base.Extends q

theorem preserved_onward (base : Proof) : Preserved (Onward base) := by
  intro q choices rule r indices q' h happly
  exact ⟨h.reachable.change (.derived happly), h.extended.trans (extends_of_derived happly)⟩

namespace Walk

/-- Unless the walk has come to an end, a step has the text. -/
def Has (text : List Char) (w : Walk) : Prop :=
  w.halt = none → w.proof.hasText text = true

theorem stable_has (text : List Char) : Stable (Has text) := by
  intro w h choices rule indices
  unfold attempt
  split
  · exact h
  · next hhalt =>
    split
    · next happly => exact fun _ => (extends_of_derived happly).hasText (h hhalt)
    · exact h
    · exact fun hnone => nomatch hnone

/-- The steps that the walk has added are counted. -/
def Counts (base : Proof) (w : Walk) : Prop :=
  w.proof.steps.length = base.steps.length + w.added

theorem stable_counts (base : Proof) : Stable (Counts base) := by
  intro w h choices rule indices
  unfold attempt
  split
  · exact h
  · split
    · next happly =>
      obtain ⟨contents, s, -, -, -, rfl⟩ := apply_inv happly
      rw [Counts] at h ⊢
      rw [steps_refreshed, addStep, List.length_append, h]
      rfl
    · exact h
    · exact h

section

variable {base : Proof} {w : Walk} {rule : Rule} {s : Sentence}

/-- An attempt on steps of the base leaves what the rule derives from them among the steps, be it as
a new step or as one that was there. -/
theorem attempt_has (hw : w.Keeps (Onward base)) {choices : Choices} {indices : List Int}
    {contents : List Content} (hcontents : base.contents indices = .ok contents)
    (happly : rule.apply choices contents = .ok (some s)) :
    (w.attempt choices rule indices).1.Has s.text := by
  have hfound := hw.proof.extended.contents hcontents
  have haccepts := (Rule.apply_inv happly).1
  unfold attempt
  split
  · next hhalt => exact fun hnone => by rw [hhalt] at hnone; cases hnone
  · rw [Proof.apply, hfound]
    simp only [haccepts, happly]
    by_cases htext : w.proof.hasText s.text = true
    · rw [if_pos htext]
      exact fun _ => htext
    · rw [if_neg htext]
      intro _
      rw [hasText_iff, steps_refreshed]
      exact ⟨_, List.mem_append_right _ (List.mem_singleton_self _), rfl⟩

theorem attemptOrders_has (hw : w.Keeps (Onward base)) {found : List Step}
    (hfound : found.Sublist base.steps) (hbase : Orderly base)
    (happly : rule.apply {} (found.map Step.content) = .ok (some s)) (rest : List (List Int)) :
    (attemptOrders rule (found.map Step.index :: rest) w).Has s.text := by
  have hcontents := hbase.contents_found fun t ht => hfound.subset ht
  have hhas := attempt_has hw hcontents happly
  rw [attemptOrders]
  split
  · next heq => rwa [heq] at hhas
  · next heq =>
    rw [heq] at hhas
    exact (stable_has _).attemptOrders hhas rule rest

/-- What one element of a fold brings about holds at the end, if what it needs and what it brings
about are kept. -/
theorem foldl_has {α : Type} {f : Walk → α → Walk}
    (hf : ∀ I, Stable I → ∀ w a, I w → I (f w a)) {a : α} {text : List Char}
    (ha : ∀ w, w.Keeps (Onward base) → (f w a).Has text) {l : List α} (hmem : a ∈ l)
    (hw : w.Keeps (Onward base)) : (l.foldl f w).Has text := by
  have hkeeps := stable_keeps (preserved_onward base)
  obtain ⟨before, after, rfl⟩ := List.append_of_mem hmem
  rw [List.foldl_append, List.foldl_cons]
  have hthere := ha _ (Stable.foldl (I := Keeps (Onward base)) (hf _ hkeeps) hw before)
  exact Stable.foldl (I := Has text) (hf _ (stable_has text)) hthere after

theorem overSteps_has (hw : w.Keeps (Onward base)) (hbase : Orderly base) {found : Step}
    (hfound : [found].Sublist base.steps) {choices : List Choices} {c : Choices} (hc : c ∈ choices)
    (happly : rule.apply c [found.content] = .ok (some s)) :
    (overSteps rule choices w).Has s.text := by
  have hmem := hfound.trans hw.proof.extended.sublist
  have hcontents := hbase.contents_found fun t ht => hfound.subset ht
  refine foldl_has (a := found) ?_ (fun w hw => ?_) (List.singleton_sublist.mp hmem) hw
  · exact fun I hI w t h => Stable.foldl (I := I) (fun w c h => hI h c rule [t.index]) h choices
  · refine foldl_has (fun I hI w c h => hI h c rule [found.index]) (fun w hw => ?_) hc hw
    exact attempt_has hw hcontents happly

theorem Stable.overPairsWith {I : Walk → Prop} (hI : Stable I) (h : I w) (rule : Rule)
    (first : Step) (i : Nat) : I (Walk.overPairsWith rule first i w) :=
  Stable.foldl (I := I) (fun _ _ h => hI.attemptOrders h rule _) h _

theorem Stable.overTriplesWith {I : Walk → Prop} (hI : Stable I) (h : I w) (rule : Rule)
    (first second : Step) (j : Nat) : I (Walk.overTriplesWith rule first second j w) :=
  Stable.foldl (I := I) (fun _ _ h => hI.attemptOrders h rule _) h _

theorem overPairs_has (hw : w.Keeps (Onward base)) (hbase : Orderly base) {first second : Step}
    (hfound : [first, second].Sublist base.steps)
    (happly : rule.apply {} [first.content, second.content] = .ok (some s)) :
    (overPairs rule w).Has s.text := by
  -- the second step is looked for in the proof as it then is, but at or after the same place
  obtain ⟨i, hfirst, hrest⟩ := exists_place hfound
  refine foldl_has (a := (first, i)) ?_ (fun w hw => ?_) ?_ hw
  · exact fun I hI w a h => hI.overPairsWith h rule a.1 a.2
  · have hsecond := hrest.trans (hw.proof.extended.sublist.drop (i + 1))
    refine foldl_has (a := second) ?_ (fun w hw => ?_) (List.singleton_sublist.mp hsecond) hw
    · exact fun I hI w t h => hI.attemptOrders h rule _
    · exact attemptOrders_has hw hfound hbase happly _
  · exact List.mk_mem_zipIdx_iff_getElem?.mpr (hw.proof.extended.getElem? hfirst)

theorem overTriples_has (hw : w.Keeps (Onward base)) (hbase : Orderly base)
    {first second third : Step} (hfound : [first, second, third].Sublist base.steps)
    (happly : rule.apply {} [first.content, second.content, third.content] = .ok (some s)) :
    (overTriples rule w).Has s.text := by
  obtain ⟨i, hfirst, hrest⟩ := exists_place hfound
  obtain ⟨k, hsecond, hlast⟩ := exists_place hrest
  rw [List.getElem?_drop] at hsecond
  rw [List.drop_drop] at hlast
  refine foldl_has (a := (first, i)) ?_ (fun w hw => ?_) ?_ hw
  · intro I hI w a h
    exact Stable.foldl (I := I) (fun w b h => hI.overTriplesWith h rule a.1 b.1 b.2) h _
  · refine foldl_has (a := (second, i + 1 + k)) ?_ (fun w hw => ?_) ?_ hw
    · exact fun I hI w b h => hI.overTriplesWith h rule first b.1 b.2
    · have hthird := hlast.trans (hw.proof.extended.sublist.drop (i + 1 + k + 1))
      refine foldl_has (a := third) ?_ (fun w hw => ?_) (List.singleton_sublist.mp hthird) hw
      · exact fun I hI w t h => hI.attemptOrders h rule _
      · exact attemptOrders_has hw hfound hbase happly _
    · rw [List.mk_mem_zipIdx_iff_le_and_getElem?_sub, List.getElem?_drop]
      refine ⟨by omega, ?_⟩
      rw [show i + 1 + (i + 1 + k - (i + 1)) = i + 1 + k by omega]
      exact hw.proof.extended.getElem? hsecond
  · exact List.mk_mem_zipIdx_iff_getElem?.mpr (hw.proof.extended.getElem? hfirst)

/-- Trying a rule leaves all that it derives from steps of the base among the steps. -/
theorem tryRule_has (hw : w.Keeps (Onward base)) (hbase : Orderly base) {choices : Choices}
    (htried : rule.IsTried choices) {found : List Step} (hfound : found.Sublist base.steps)
    (happly : rule.apply choices (found.map Step.content) = .ok (some s)) :
    (w.tryRule rule).Has s.text := by
  have hlength := Rule.length_of_accepts (Rule.apply_inv happly).1
  rw [List.length_map] at hlength
  obtain ⟨hrule, hmode⟩ := htried
  -- what a rule derives depends on the one choice it leaves open, and the search tries both ways
  obtain ⟨side, direction, mode, added⟩ := choices
  cases rule with
  | addition => exact absurd rfl hrule
  | modusPonens | modusTollens | hypotheticalSyllogism | disjunctiveSyllogism
  | conjunctionIntroduction | biconditionalIntroduction | resolution =>
    obtain ⟨first, second, rfl⟩ := List.length_eq_two.mp hlength
    exact overPairs_has hw hbase hfound happly
  | constructiveDilemma =>
    obtain ⟨first, second, third, rfl⟩ := List.length_eq_three.mp hlength
    exact overTriples_has hw hbase hfound happly
  | conjunctionElimination | simplification =>
    obtain ⟨t, rfl⟩ := List.length_eq_one_iff.mp hlength
    cases side with
    | left => exact overSteps_has hw hbase hfound List.mem_cons_self happly
    | right =>
      exact overSteps_has hw hbase hfound (List.mem_cons_of_mem _ List.mem_cons_self) happly
  | biconditionalElimination =>
    obtain ⟨t, rfl⟩ := List.length_eq_one_iff.mp hlength
    cases direction with
    | forward => exact overSteps_has hw hbase hfound List.mem_cons_self happly
    | backward =>
      exact overSteps_has hw hbase hfound (List.mem_cons_of_mem _ List.mem_cons_self) happly
  | doubleNegation =>
    obtain ⟨t, rfl⟩ := List.length_eq_one_iff.mp hlength
    obtain rfl : mode = .eliminate := hmode rfl
    exact overSteps_has hw hbase hfound List.mem_cons_self happly
  | deMorganConjunction | deMorganDisjunction | transposition | implication | exportation
  | absorption =>
    obtain ⟨t, rfl⟩ := List.length_eq_one_iff.mp hlength
    exact overSteps_has hw hbase hfound List.mem_cons_self happly

end

end Walk

/-- What a round makes of the proof that it starts from. -/
structure Explored (p : Proof) (w : Walk) : Prop where
  onward : Onward p w.proof
  counts : w.Counts p
  found : w.proof.isComplete = false → ∀ text, p.Yields text → w.proof.hasText text = true

theorem explored_round {p : Proof} (h : Reachable p) : Explored p p.round := by
  have hstart : ({ proof := p } : Walk).Keeps (Onward p) :=
    ⟨⟨h, .refl p⟩, fun _ hr => nomatch hr⟩
  have hkeeps : p.round.Keeps (Onward p) := round_keeps (preserved_onward p) hstart.proof
  refine ⟨hkeeps.proof, (Walk.stable_counts p).round rfl, fun hincomplete text hyields => ?_⟩
  obtain ⟨rule, choices, found, s, htried, hfound, happly, rfl⟩ := hyields
  have hhas : p.round.Has s.text := by
    refine Walk.foldl_has (fun I hI w r hw => hI.tryRule hw r) (fun w hw => ?_)
      (Rule.mem_all rule) hstart
    exact Walk.tryRule_has hw h.orderly htried hfound happly
  cases hhalt : p.round.halt with
  | none => exact hhas hhalt
  | some halt =>
    cases halt with
    | reached r =>
      rw [hkeeps.reached r hhalt] at hincomplete
      cases hincomplete
    | failed cause => exact absurd hhalt ((unfailed_round h.wellBuilt).halt cause)

/-- How far repeated rounds have come, after a number of added steps. -/
structure Progress (base : Proof) (added : Nat) (q : Proof) : Prop where
  onward : Onward base q
  counts : q.steps.length = base.steps.length + added
  found : q.isComplete = false → 0 < added → ∀ text, base.Yields text → q.hasText text = true

theorem Progress.next {base p : Proof} {added : Nat} {w : Walk} (h : Progress base added p)
    (hw : Explored p w) : Progress base (added + w.added) w.proof := by
  refine ⟨⟨hw.onward.reachable, h.onward.extended.trans hw.onward.extended⟩, ?_, ?_⟩
  · rw [hw.counts, h.counts, Nat.add_assoc]
  · exact fun hincomplete _ text hyields =>
      hw.found hincomplete text (h.onward.extended.yields hyields)

/-- A search from the first proof has led to the second and given up there. If it has not used up the
limit, there is nothing left for it to derive. -/
structure GivesUp (p : Proof) (limit : Int) (q : Proof) : Prop where
  incomplete : q.isComplete = false
  found : ∀ text, p.Yields text → q.hasText text = true
  saturated : q.steps.length < p.steps.length + limit →
    ∀ text, q.Yields text → q.hasText text = true

theorem settled_eq_exhausted_iff (p : Proof) : p.settled = .exhausted ↔ p.isComplete = false := by
  unfold settled
  cases p.isComplete <;> simp

theorem givesUp_repeatRounds {round : Proof → Walk} (hround : ∀ p, Reachable p → Explored p (round p))
    {limit : Int} (hlimit : 0 < limit) {base : Proof} (hbase : Reachable base)
    (hresult : (repeatRounds round limit 0 base).2 = .ok .exhausted) :
    GivesUp base limit (repeatRounds round limit 0 base).1 := by
  have hstart : Progress base 0 base :=
    ⟨⟨hbase, .refl base⟩, rfl, fun _ hpos => absurd hpos (Nat.lt_irrefl 0)⟩
  have hends := ending_repeatRounds (Q := Progress base)
    (fun _ p hp => hp.next (hround p hp.onward.reachable)) limit 0 hstart
  generalize repeatRounds round limit 0 base = outcome at hends hresult ⊢
  cases hends with
  | @settled added p hp hstop =>
    have hincomplete := (settled_eq_exhausted_iff p).mp (Except.ok.inj hresult)
    have hfull : limit ≤ added := hstop.resolve_right (by simp [hincomplete])
    refine ⟨hincomplete, hp.found hincomplete (by omega), fun hspare => ?_⟩
    rw [hp.counts] at hspare
    omega
  | @idle added p hp hspare hopen hhalt hnone =>
    have hw := hround p hp.onward.reachable
    have hincomplete := (settled_eq_exhausted_iff _).mp (Except.ok.inj hresult)
    have hsame : (round p).proof.steps = p.steps := by
      obtain ⟨added, hsteps, -⟩ := hw.onward.extended.steps
      have hcounts := hw.counts
      rw [Walk.Counts, hnone, hsteps, List.length_append] at hcounts
      rw [hsteps, List.length_eq_zero_iff.mp (by omega : added.length = 0), List.append_nil]
    refine ⟨hincomplete, fun text hyields => ?_, fun _ text hyields => ?_⟩
    · exact hw.found hincomplete text (hp.onward.extended.yields hyields)
    · rw [Yields, hsame] at hyields
      exact hw.found hincomplete text hyields
  | reached => cases hresult
  | failed => cases hresult

theorem givesUp_search {p : Proof} (h : Reachable p) {limit : Int} (hlimit : 0 < limit)
    (hresult : (p.search limit).2 = .ok .exhausted) : GivesUp p limit (p.search limit).1 := by
  unfold search at hresult ⊢
  split at hresult
  · cases hresult
  · split at hresult
    · cases hresult
    · split at hresult
      · cases hresult
      · next hgoal hpremises hopen =>
        rw [if_neg hgoal, if_neg hpremises, if_neg hopen]
        exact givesUp_repeatRounds (fun _ => explored_round) hlimit h hresult

end Proof

end Sentential
