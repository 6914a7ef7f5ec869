import Mathlib
import Sentential.Proofs.Replay
import Sentential.Proofs.SearchOutcome

/-! How the parts of a proof fit together: the numbers of its steps, the premises among them and
what the other steps refer to. This does not depend on what the premises are. They may be sentences
that have lost their text or their formula, and whatever is handed over that is no sentence is
declined; a rule that fails on such steps, or a search that breaks off, leaves the proof in order. -/

namespace Sentential

/-- What can be asked for, with contents of any kind. -/
inductive Request where
  | premise (content : Content)
  | conclusion (content : Content)
  | rule (choices : Choices) (name : String) (selected : References)
  | search (limit : Int)
  | clear

namespace Step

/-- The step is labelled as a premise. -/
def isCalledPremise (s : Step) : Bool :=
  s.justification.text = "Premise"

/-- The step refers to steps with lower numbers, at least one. -/
def RefersBack (s : Step) : Prop :=
  ∃ numbers, s.references = .steps numbers ∧ numbers ≠ [] ∧ ∀ d ∈ numbers, 1 ≤ d ∧ d < s.index

end Step

namespace Proof

/-- The proof after a request. What is declined or fails leaves the proof as it is; a search that
fails leaves the steps that it has derived. -/
def serve (p : Proof) : Request → Proof
  | .premise content =>
    match p.addPremise content with
    | .error _ => p
    | .ok q => q
  | .conclusion content =>
    match p.setConclusion content with
    | .error _ => p
    | .ok q => q
  | .rule choices name selected =>
    match p.applyCalled choices name selected with
    | .derived _ q => q
    | .refused _ => p
    | .failed _ => p
  | .search limit => (p.search limit).1
  | .clear => .empty

/-- The parts of the proof fit together. -/
structure Orderly (p : Proof) : Prop where
  numbers : ∀ (k : Nat) (s : Step), p.steps[k]? = some s → s.index = k + 1
  next : p.next = p.steps.length + 1
  premises : (p.steps.filter Step.isCalledPremise).map Step.content = p.premises.map .sentence
  unsupported : ∀ s ∈ p.steps, s.isCalledPremise = true → s.references = .steps []
  supported : ∀ s ∈ p.steps, s.isCalledPremise = false → s.RefersBack
  distinct : (p.premises.map Sentence.text).Nodup
  /-- A derived step has a text that no step before it has. -/
  fresh : p.steps.Pairwise fun s t => t.isCalledPremise = false → s.content.text ≠ t.content.text

theorem orderly_empty : Orderly .empty where
  numbers k s hs := by simp [empty] at hs
  next := rfl
  premises := rfl
  unsupported _ hs := nomatch hs
  supported _ hs := nomatch hs
  distinct := .nil
  fresh := .nil

namespace Orderly

variable {p q : Proof}

theorem index_bounds (h : Orderly p) {s : Step} (hs : s ∈ p.steps) :
    1 ≤ s.index ∧ s.index < p.next := by
  obtain ⟨k, hk⟩ := List.mem_iff_getElem?.mp hs
  have hlt : k < p.steps.length := (List.getElem?_eq_some_iff.mp hk).1
  have hindex := h.numbers k s hk
  have hnext := h.next
  omega

theorem numbers_addStep (h : Orderly p) (content : Content) (justification : Justification)
    (references : List Int) (k : Nat) (s : Step)
    (hs : (p.addStep content justification references).steps[k]? = some s) : s.index = k + 1 := by
  rw [addStep, List.getElem?_append] at hs
  split at hs
  · exact h.numbers k s hs
  · next hk =>
    -- the only place from there on is that of the new step
    have hlast : k - p.steps.length < 1 := (List.getElem?_eq_some_iff.mp hs).1
    have hnext := h.next
    obtain rfl : k = p.steps.length := by omega
    rw [Nat.sub_self, List.getElem?_cons_zero] at hs
    cases hs
    exact hnext

theorem addPremise (h : Orderly p) {content : Content} (hadd : p.addPremise content = .ok q) :
    Orderly q := by
  obtain ⟨s, rfl, hnew, rfl⟩ := addPremise_inv hadd
  have hcalled : ∀ index,
      (⟨index, .sentence s, .premise, .steps []⟩ : Step).isCalledPremise = true :=
    fun _ => rfl
  constructor
  · exact h.numbers_addStep _ _ _
  · simp [addStep, h.next]
  · simp [addStep, h.premises, hcalled]
  · rw [addStep, List.forall_mem_append, List.forall_mem_singleton]
    exact ⟨h.unsupported, fun _ => rfl⟩
  · rw [addStep, List.forall_mem_append, List.forall_mem_singleton]
    exact ⟨h.supported, fun hderived => by simp [hcalled] at hderived⟩
  · rw [List.map_append, List.nodup_append]
    exact ⟨h.distinct, by simp, by simpa using hnew⟩
  · rw [addStep, List.pairwise_append]
    exact ⟨h.fresh, by simp, by simp [hcalled]⟩

theorem refreshed (h : Orderly p) : Orderly p.refreshed := by
  unfold Proof.refreshed
  split
  · exact h
  · exact ⟨h.numbers, h.next, h.premises, h.unsupported, h.supported, h.distinct, h.fresh⟩

theorem setConclusion (h : Orderly p) {content : Content}
    (hset : p.setConclusion content = .ok q) : Orderly q := by
  cases content with
  | other value => cases hset
  | sentence s =>
    cases hset
    refine refreshed ?_
    exact ⟨h.numbers, h.next, h.premises, h.unsupported, h.supported, h.distinct, h.fresh⟩

theorem derived (h : Orderly p) {choices : Choices} {rule r : Rule} {indices : List Int}
    (happly : p.apply choices rule indices = .derived r q) : Orderly q := by
  obtain ⟨contents, s, hcontents, hs, hnew, rfl⟩ := apply_inv happly
  have hcalled : ∀ index,
      (⟨index, .sentence s, .rule rule, .steps indices⟩ : Step).isCalledPremise = false := by
    simp [Step.isCalledPremise, Justification.text, rule.name_ne_premise]
  -- no rule accepts nothing at all
  have hsome : indices ≠ [] := by
    rintro rfl
    cases hcontents
    have haccepts := (Rule.apply_inv hs).1
    rw [accepts_nil] at haccepts
    cases haccepts
  have hback : ∀ d ∈ indices, 1 ≤ d ∧ d < p.next := by
    intro d hd
    obtain ⟨found, rfl, -, hfound⟩ := found_of_contents hcontents
    obtain ⟨t, ht, rfl⟩ := List.mem_map.mp hd
    exact h.index_bounds (hfound t ht)
  have hfresh : ∀ t ∈ p.steps, t.content.text ≠ s.text := by
    intro t ht htext
    rw [hasText_iff.mpr ⟨t, ht, htext⟩] at hnew
    cases hnew
  refine refreshed ?_
  constructor
  · exact h.numbers_addStep _ _ _
  · simp [addStep, h.next]
  · simp [addStep, h.premises, hcalled]
  · rw [addStep, List.forall_mem_append, List.forall_mem_singleton]
    exact ⟨h.unsupported, fun hpremise => by simp [hcalled] at hpremise⟩
  · rw [addStep, List.forall_mem_append, List.forall_mem_singleton]
    exact ⟨h.supported, fun _ => ⟨indices, rfl, hsome, hback⟩⟩
  · exact h.distinct
  · rw [addStep, List.pairwise_append]
    refine ⟨h.fresh, by simp, fun t ht u hu _ => ?_⟩
    rw [List.mem_singleton.mp hu]
    exact hfresh t ht

theorem serve (h : Orderly p) (request : Request) : Orderly (p.serve request) := by
  cases request with
  | premise content =>
    rw [Proof.serve]
    split
    · exact h
    · next hadd => exact h.addPremise hadd
  | conclusion content =>
    rw [Proof.serve]
    split
    · exact h
    · next hset => exact h.setConclusion hset
  | rule choices name selected =>
    rw [Proof.serve]
    split
    · next hcalled =>
      obtain ⟨rule, indices, -, -, happly⟩ := applyCalled_inv hcalled
      exact h.derived happly
    · exact h
    · exact h
  | search limit =>
    -- a search, wherever it breaks off, has changed the proof by derived steps alone
    exact (search_keeps (fun _ _ _ _ _ _ hp happly => hp.derived happly) limit h).proof
  | clear => exact orderly_empty

end Orderly

/-- Whatever is asked for, in whatever order, the parts of the proof fit together afterwards. -/
theorem orderly_after_requests (requests : List Request) :
    Orderly (requests.foldl serve .empty) :=
  List.foldlRecOn requests serve orderly_empty fun _ hp request _ => hp.serve request

end Proof

end Sentential
